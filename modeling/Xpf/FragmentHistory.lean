/-
Histories of the fragment-overlap tracker.

A `World` is a tracker with what its callers hold: the reservations that are not settled.
A reservation is settled once, as its type cannot be copied in the source, so settling
takes one out of the list. Beside it stands the record of the history, which no operation
reads: the fragments recorded under each token, the tokens that were failed, and those
whose commit has reported completion.

`Inv` ties each entry to the record of its token. An operation changes one entry at most
and may take others away, so what it has to show for the entries it keeps is that the
record of their tokens is what it was.
-/
import Xpf.FragmentOverlap
import Xpf.Runs

set_option autoImplicit false

namespace Xpf.FragmentOverlap

open Ranges Runs OverlapTracker

/-! ## Merging -/

theorem mergeLoop_eq : ∀ (rest : List Range) (out : List Range) (cur : Range),
    mergeLoop out cur rest = if out.length + (coalesce cur rest).length ≤ overlapMaxRanges
      then some (out ++ coalesce cur rest) else none := by
  intro rest
  induction rest with
  | nil =>
    intro out cur
    have hone : (coalesce cur []).length = 1 := rfl
    unfold mergeLoop
    by_cases h : overlapMaxRanges ≤ out.length
    · rw [if_pos h, if_neg (by omega)]
    · rw [if_neg h, if_pos (by omega)]
      rfl
  | cons nxt rest ih =>
    intro out cur
    unfold mergeLoop coalesce
    by_cases htouch : nxt.1 ≤ cur.2
    · have hgrown : (if cur.2 < nxt.2 then (cur.1, nxt.2) else cur) = (cur.1, max cur.2 nxt.2) := by
        split_ifs with h
        · rw [max_eq_right (Nat.le_of_lt h)]
        · rw [max_eq_left (Nat.le_of_not_lt h)]
      rw [if_pos htouch, if_pos htouch, hgrown, ih]
    · obtain ⟨hi, tail, hfirst⟩ := coalesce_start rest nxt
      have hpos : 0 < (coalesce nxt rest).length := by
        rw [hfirst]
        exact Nat.succ_pos _
      rw [if_neg htouch, if_neg htouch]
      by_cases hfull : overlapMaxRanges ≤ out.length
      · rw [if_pos hfull, if_neg (by rw [List.length_cons]; omega)]
      · have hlength : (out ++ [cur]).length + (coalesce nxt rest).length
            = out.length + (cur :: coalesce nxt rest).length := by
          rw [List.length_append, List.length_cons, List.length_cons, List.length_nil]
          omega
        rw [if_neg hfull, ih, hlength, List.append_assoc]
        rfl

theorem mergeRanges_eq (ranges : List Range) (new : Range) :
    mergeRanges ranges new = if (normalized (ranges ++ [new])).length ≤ overlapMaxRanges
      then some (normalized (ranges ++ [new])) else none := by
  unfold mergeRanges normalized
  cases hsort : (ranges ++ [new]).insertionSort fun a b => a.1 ≤ b.1 with
  | nil =>
    have hlength := congrArg List.length hsort
    rw [List.length_insertionSort, List.length_append] at hlength
    simp at hlength
  | cons cur rest =>
    dsimp only
    rw [mergeLoop_eq, List.length_nil, Nat.zero_add, List.nil_append]

/-! ## The world -/

/-- A fragment of a datagram. -/
structure Fragment where
  start : ℕ
  stop : ℕ
  last : Bool
deriving DecidableEq

def Fragment.range (f : Fragment) : Range := (f.start, f.stop)

/-- A tracker, the reservations its callers hold, and the record of the history. -/
structure World where
  tracker : OverlapTracker
  held : List OverlapAdmissionToken
  recorded : List (OverlapAdmissionToken × Fragment)
  failed : List OverlapAdmissionToken
  completed : List OverlapAdmissionToken

/-- The operations; a reservation is named by its place among those held. -/
inductive Op where
  | check (key : OverlapKey) (start stop : UInt32) (isLast : Bool) (now : UInt64)
  | record (key : OverlapKey) (start stop : UInt32) (isLast : Bool) (now : UInt64)
  | commit (n : ℕ)
  | fail (n : ℕ)

namespace World

/-- A fresh tracker. -/
def init (seed : UInt64) : World := ⟨withSeed seed, [], [], [], []⟩

def record (w : World) (key : OverlapKey) (f : Fragment) (nowNs : ℕ) : World :=
  let (result, tracker) := w.tracker.checkAndRecordFragmentDetailed key f.start f.stop f.last nowNs
  match result.admission with
  | none => { w with tracker := tracker }
  | some token =>
    { w with tracker := tracker, held := w.held ++ [token], recorded := w.recorded ++ [(token, f)] }

/-- Settling the `n`-th reservation that is held by a commit. -/
def commit (w : World) (n : ℕ) : World :=
  match w.held[n]? with
  | none => w
  | some token =>
    let (done, tracker) := w.tracker.commitAdmission token
    { w with
      tracker := tracker
      held := w.held.eraseIdx n
      completed := if done then w.completed ++ [token] else w.completed }

/-- Settling the `n`-th reservation that is held by a failure. -/
def fail (w : World) (n : ℕ) : World :=
  match w.held[n]? with
  | none => w
  | some token =>
    { w with
      tracker := (w.tracker.failAdmission token).2
      held := w.held.eraseIdx n
      failed := w.failed ++ [token] }

def step (w : World) : Op → World
  | .check key start stop isLast now =>
    { w with tracker :=
        (w.tracker.checkOverlapFragmentDetailed key start.toNat stop.toNat isLast now.toNat).2 }
  | .record key start stop isLast now => w.record key ⟨start.toNat, stop.toNat, isLast⟩ now.toNat
  | .commit n => w.commit n
  | .fail n => w.fail n

/-- The world after a history. -/
def after (w : World) (ops : List Op) : World := run step w ops

/-- The fragments recorded under a token. -/
def recordedOf (w : World) (token : OverlapAdmissionToken) : List Fragment :=
  (w.recorded.filter fun p => p.1 = token).map Prod.snd

/-- The fragments recorded under a token cover `x`. -/
def Covered (w : World) (token : OverlapAdmissionToken) (x : ℕ) : Prop :=
  Covers ((w.recordedOf token).map Fragment.range) x

/-- The entry is in the tracker. -/
def Holds (w : World) (e : OverlapEntry) : Prop := e ∈ w.tracker.shardOf e.key

end World

/-- The token of an entry. -/
def tokenOf (e : OverlapEntry) : OverlapAdmissionToken := ⟨e.key, e.incarnation⟩

/-! ## The invariant -/

/-- What an entry has to do with the record of its token. -/
structure EntryOk (w : World) (e : OverlapEntry) : Prop where
  some_recorded : w.recordedOf (tokenOf e) ≠ []
  proper : ∀ f ∈ w.recordedOf (tokenOf e), f.start < f.stop ∧ f.stop < 2 ^ 32
  disjoint : (w.recordedOf (tokenOf e)).Pairwise fun f g => f.stop ≤ g.start ∨ g.stop ≤ f.start
  normal : Normal e.ranges
  covers : ∀ x, Covers e.ranges x ↔ w.Covered (tokenOf e) x
  ends : ∀ r ∈ e.ranges, (∃ f ∈ w.recordedOf (tokenOf e), r.1 = f.start) ∧ ∃ f ∈ w.recordedOf (tokenOf e), r.2 = f.stop
  terminal : ∀ n, e.terminalEnd = some n ↔ ∃ f ∈ w.recordedOf (tokenOf e), f.last = true ∧ f.stop = n
  within : ∀ n, e.terminalEnd = some n → ∀ r ∈ e.ranges, r.2 ≤ n
  slots : e.ranges.length ≤ overlapMaxRanges
  pending : e.pending = w.held.count (tokenOf e)
  outstanding : e.pending ≤ (w.recordedOf (tokenOf e)).length
  failed : e.failed = true ↔ tokenOf e ∈ w.failed
  completed : tokenOf e ∈ w.completed → ∃ n, e.terminalEnd = some n ∧ e.ranges = [(0, n)]

/-- The joint invariant of the tracker and the record. -/
structure Inv (w : World) : Prop where
  home : ∀ i, ∀ e ∈ w.tracker.shards i, w.tracker.shardIndex e.key = i
  unique : ∀ i, (w.tracker.shards i).Pairwise fun a b => overlapSameDatagram a.key b.key = false
  entries : ∀ i, ∀ e ∈ w.tracker.shards i, EntryOk w e
  fresh : ∀ p ∈ w.recorded, p.1.incarnation < w.tracker.nextRevision
  agree : ∀ p ∈ w.recorded, ∀ q ∈ w.recorded, p.1.incarnation = q.1.incarnation → p.1 = q.1
  held : ∀ token ∈ w.held, w.recordedOf token ≠ []
  failed : ∀ token ∈ w.failed, w.recordedOf token ≠ []
  completed : ∀ token ∈ w.completed, w.recordedOf token ≠ []

/-! ## Shards -/

theorem same_iff {a b : OverlapKey} :
    overlapSameDatagram a b = true ↔ { a with fairnessOrigin := none } = { b with fairnessOrigin := none } := by
  simp [overlapSameDatagram, and_assoc]

theorem same_refl (a : OverlapKey) : overlapSameDatagram a a = true := same_iff.2 rfl

theorem same_symm {a b : OverlapKey} (h : overlapSameDatagram a b = true) : overlapSameDatagram b a = true :=
  same_iff.2 (same_iff.1 h).symm

theorem same_trans {a b c : OverlapKey} (hab : overlapSameDatagram a b = true) (hbc : overlapSameDatagram b c = true) :
    overlapSameDatagram a c = true :=
  same_iff.2 ((same_iff.1 hab).trans (same_iff.1 hbc))

/-- A datagram has one shard. -/
theorem shardIndex_congr (t : OverlapTracker) {a b : OverlapKey} (h : overlapSameDatagram a b = true) :
    t.shardIndex a = t.shardIndex b := by
  simp only [overlapSameDatagram, Bool.and_eq_true, decide_eq_true_eq] at h
  obtain ⟨⟨⟨⟨⟨⟨hfamily, hsrc⟩, hdst⟩, hident⟩, -⟩, -⟩, -⟩ := h
  unfold shardIndex overlapShardIndexSeeded
  rw [hfamily, hsrc, hdst, hident]

theorem shards_putShard (t : OverlapTracker) (key : OverlapKey) (shard : List OverlapEntry) (i : ℕ) :
    (t.putShard key shard).shards i = if i = t.shardIndex key then shard else t.shards i := rfl

theorem mem_of_find {shard : List OverlapEntry} {key : OverlapKey} {e : OverlapEntry} (h : find shard key = some e) :
    e ∈ shard ∧ overlapSameDatagram e.key key = true :=
  ⟨List.mem_of_find?_eq_some h, by simpa using List.find?_some h⟩

/-- Where a datagram has one entry at most, the lookup finds it. -/
theorem find_eq {shard : List OverlapEntry} (h : shard.Pairwise fun a b => overlapSameDatagram a.key b.key = false)
    {key : OverlapKey} {e : OverlapEntry} (he : e ∈ shard) (hsame : overlapSameDatagram e.key key = true) :
    find shard key = some e := by
  induction shard with
  | nil => exact absurd he List.not_mem_nil
  | cons a rest ih =>
    obtain ⟨hfirst, hrest⟩ := List.pairwise_cons.1 h
    unfold find
    rcases List.mem_cons.1 he with rfl | he
    · rw [List.find?_cons_of_pos (by exact hsame)]
    · have hne : overlapSameDatagram a.key key = false := by
        by_contra ha
        have := same_trans (Bool.eq_true_of_not_eq_false ha) (same_symm hsame)
        rw [hfirst e he] at this
        exact absurd this Bool.false_ne_true
      rw [List.find?_cons_of_neg (by simp [hne])]
      exact ih hrest he

theorem eq_of_same {shard : List OverlapEntry} (h : shard.Pairwise fun a b => overlapSameDatagram a.key b.key = false)
    {a b : OverlapEntry} (ha : a ∈ shard) (hb : b ∈ shard) (hsame : overlapSameDatagram a.key b.key = true) : a = b := by
  have hfirst := find_eq h ha hsame
  rw [find_eq h hb (same_refl _)] at hfirst
  exact (Option.some_inj.1 hfirst).symm

/-- What is left without the entry of a datagram has none of it. -/
theorem not_same_of_mem_eraseP {shard : List OverlapEntry}
    (h : shard.Pairwise fun a b => overlapSameDatagram a.key b.key = false) {key : OverlapKey} {e : OverlapEntry}
    (he : e ∈ shard.eraseP fun a => overlapSameDatagram a.key key) : overlapSameDatagram e.key key = false := by
  induction shard with
  | nil => exact absurd he List.not_mem_nil
  | cons a rest ih =>
    obtain ⟨hfirst, hrest⟩ := List.pairwise_cons.1 h
    by_cases ha : overlapSameDatagram a.key key = true
    · rw [List.eraseP_cons_of_pos (by exact ha)] at he
      by_contra hsame
      have := same_trans ha (same_symm (Bool.eq_true_of_not_eq_false hsame))
      rw [hfirst e he] at this
      exact absurd this Bool.false_ne_true
    · rw [List.eraseP_cons_of_neg (by simpa using ha)] at he
      rcases List.mem_cons.1 he with rfl | he
      · exact Bool.eq_false_of_not_eq_true ha
      · exact ih hrest he

/-- A step of making room takes entries away at most, whether it goes on or refuses. -/
structure Shrinks (shard : List OverlapEntry) (result : Except (List OverlapEntry) (List OverlapEntry)) : Prop where
  error : ∀ rest, result = .error rest → rest.Sublist shard
  ok : ∀ rest, result = .ok rest → rest.Sublist shard

theorem Shrinks.of_error {shard rest : List OverlapEntry} (h : rest.Sublist shard) : Shrinks shard (.error rest) :=
  ⟨fun _ heq => by cases heq; exact h, fun _ heq => by simp at heq⟩

theorem Shrinks.of_ok {shard rest : List OverlapEntry} (h : rest.Sublist shard) : Shrinks shard (.ok rest) :=
  ⟨fun _ heq => by simp at heq, fun _ heq => by cases heq; exact h⟩

theorem Shrinks.trans {shard rest : List OverlapEntry} {result : Except (List OverlapEntry) (List OverlapEntry)}
    (h : Shrinks rest result) (hrest : rest.Sublist shard) : Shrinks shard result :=
  ⟨fun _ heq => (h.error _ heq).trans hrest, fun _ heq => (h.ok _ heq).trans hrest⟩

theorem senderRoom_shrinks (shard : List OverlapEntry) (key : OverlapKey) :
    Shrinks shard ((senderRoom shard key).map Prod.fst) := by
  unfold senderRoom
  split_ifs
  · exact .of_ok (List.Sublist.refl _)
  · dsimp only
    split
    · exact .of_error (List.Sublist.refl _)
    · exact .of_ok (List.eraseIdx_sublist ..)

theorem zoneRoom_shrinks (shard : List OverlapEntry) (count : ℕ) (key : OverlapKey) :
    Shrinks shard (zoneRoom shard count key) := by
  unfold zoneRoom
  split_ifs
  · exact .of_ok (List.Sublist.refl _)
  · split
    · exact .of_error (List.Sublist.refl _)
    · exact .of_ok (List.eraseIdx_sublist ..)

theorem shardRoom_shrinks (shard : List OverlapEntry) (key : OverlapKey) : Shrinks shard (shardRoom shard key) := by
  unfold shardRoom
  split_ifs
  · exact .of_ok (List.Sublist.refl _)
  · dsimp only
    split
    · exact .of_error (List.Sublist.refl _)
    · exact .of_ok (List.eraseIdx_sublist ..)

theorem makeRoom_shrinks (shard : List OverlapEntry) (key : OverlapKey) : Shrinks shard (makeRoom shard key) := by
  have hsender := senderRoom_shrinks shard key
  unfold makeRoom
  cases hs : senderRoom shard key with
  | error first => exact .of_error (hsender.error first (by rw [hs]; rfl))
  | ok first =>
    have hfirst := hsender.ok first.1 (by rw [hs]; rfl)
    have hzone := zoneRoom_shrinks first.1 first.2 key
    dsimp only
    cases hz : zoneRoom first.1 first.2 key with
    | error second => exact .of_error ((hzone.error second hz).trans hfirst)
    | ok second => exact (shardRoom_shrinks second key).trans ((hzone.ok second hz).trans hfirst)

/-! ## One operation on the tracker -/

/-- The shard of a key as a check or a record finds it. -/
def swept (t : OverlapTracker) (key : OverlapKey) (nowNs : ℕ) : List OverlapEntry := sweep (t.shardOf key) nowNs

theorem swept_sublist (t : OverlapTracker) (key : OverlapKey) (nowNs : ℕ) :
    (swept t key nowNs).Sublist (t.shardOf key) := List.filter_sublist

/-- The entry takes the fragment. -/
structure Takes (e : OverlapEntry) (f : Fragment) (ranges : List Range) : Prop where
  agrees : terminalConflict e f.stop f.last = false
  apart : overlaps e f.start f.stop = false
  merged : mergeRanges e.ranges (f.start, f.stop) = some ranges

/-- How a record can end: nothing done for an empty fragment; rejected by the entry of the
datagram; no room for a new entry; the entry extended; or one created. -/
inductive RecordEnd (t : OverlapTracker) (key : OverlapKey) (f : Fragment) (nowNs : ℕ) :
    OverlapCheckResult × OverlapTracker → Prop where
  | empty (result : OverlapCheckResult) (h : f.stop ≤ f.start) (hnone : result.admission = none) :
      RecordEnd t key f nowNs (result, t)
  | rejected (result : OverlapCheckResult) (e : OverlapEntry) (hnone : result.admission = none)
      (hfind : find (swept t key nowNs) key = some e) (hwhy : ∀ ranges, ¬ Takes e f ranges) :
      RecordEnd t key f nowNs (result, t.putShard key (swept t key nowNs))
  | full (result : OverlapCheckResult) (rest : List OverlapEntry) (hnone : result.admission = none)
      (hfind : find (swept t key nowNs) key = none) (hroom : makeRoom (swept t key nowNs) key = .error rest) :
      RecordEnd t key f nowNs (result, t.putShard key rest)
  | extended (e : OverlapEntry) (ranges : List Range) (evictions : ℕ) (hproper : f.start < f.stop)
      (hfind : find (swept t key nowNs) key = some e) (htakes : Takes e f ranges) :
      RecordEnd t key f nowNs (t.admitEntry key ((swept t key nowNs).eraseP fun e => overlapSameDatagram e.key key)
        (extend e ranges f.stop f.last t.nextRevision nowNs) evictions)
  | created (room : List OverlapEntry) (evictions : ℕ) (hproper : f.start < f.stop)
      (hfind : find (swept t key nowNs) key = none) (hroom : makeRoom (swept t key nowNs) key = .ok room) :
      RecordEnd t key f nowNs
        (t.admitEntry key room (create key f.start f.stop f.last t.nextRevision nowNs) evictions)

theorem record_end (t : OverlapTracker) (key : OverlapKey) (f : Fragment) (nowNs : ℕ) :
    RecordEnd t key f nowNs (t.checkAndRecordFragmentDetailed key f.start f.stop f.last nowNs) := by
  unfold checkAndRecordFragmentDetailed
  by_cases hempty : f.stop ≤ f.start
  · rw [if_pos hempty]
    exact .empty _ hempty rfl
  rw [if_neg hempty]
  dsimp only
  rw [show sweep (t.shardOf key) nowNs = swept t key nowNs from rfl]
  cases hfind : find (swept t key nowNs) key with
  | some e =>
    have hrefuse : ∀ result : OverlapCheckResult, result.admission = none → (∀ ranges, ¬ Takes e f ranges) →
        RecordEnd t key f nowNs (result, t.putShard key (swept t key nowNs)) :=
      fun result hnone hno => .rejected result e hnone hfind hno
    dsimp only
    by_cases hterminal : terminalConflict e f.stop f.last = true
    · rw [if_pos hterminal]
      exact hrefuse _ rfl fun ranges h => by rw [h.agrees] at hterminal; exact absurd hterminal Bool.false_ne_true
    rw [if_neg hterminal]
    by_cases hoverlap : overlaps e f.start f.stop = true
    · rw [if_pos hoverlap]
      exact hrefuse _ rfl fun ranges h => by rw [h.apart] at hoverlap; exact absurd hoverlap Bool.false_ne_true
    rw [if_neg hoverlap]
    cases hmerge : mergeRanges e.ranges (f.start, f.stop) with
    | none => exact hrefuse _ rfl fun ranges h => absurd (hmerge.symm.trans h.merged) (by simp)
    | some ranges =>
      exact .extended e ranges _ (by omega) hfind
        ⟨Bool.eq_false_of_not_eq_true hterminal, Bool.eq_false_of_not_eq_true hoverlap, hmerge⟩
  | none =>
    dsimp only
    cases hroom : makeRoom (swept t key nowNs) key with
    | error rest => exact .full _ rest rfl hfind hroom
    | ok room => exact .created room _ (by omega) hfind hroom

/-- A check leaves the swept shard, or all as it was. -/
theorem check_tracker (t : OverlapTracker) (key : OverlapKey) (start stop : ℕ) (isLast : Bool) (nowNs : ℕ) :
    (t.checkOverlapFragmentDetailed key start stop isLast nowNs).2 = t
      ∨ (t.checkOverlapFragmentDetailed key start stop isLast nowNs).2 = t.putShard key (swept t key nowNs) := by
  unfold checkOverlapFragmentDetailed
  by_cases hempty : stop ≤ start
  · rw [if_pos hempty]
    exact .inl rfl
  rw [if_neg hempty]
  refine .inr ?_
  dsimp only
  split
  · rfl
  · split_ifs
    · rfl
    · rfl
    · split <;> rfl

/-! ## Entries that are left alone -/

/-- The record of a token is what it was. -/
structure SameRecord (w w' : World) (token : OverlapAdmissionToken) : Prop where
  recorded : w'.recordedOf token = w.recordedOf token
  held : w'.held.count token = w.held.count token
  failed : token ∈ w'.failed ↔ token ∈ w.failed
  completed : token ∈ w'.completed → token ∈ w.completed

/-- The record is none of the tracker's. -/
theorem SameRecord.tracker (w : World) (t : OverlapTracker) (token : OverlapAdmissionToken) :
    SameRecord w { w with tracker := t } token :=
  ⟨rfl, rfl, Iff.rfl, id⟩

theorem EntryOk.congr {w w' : World} {e : OverlapEntry} (h : EntryOk w e) (hsame : SameRecord w w' (tokenOf e)) :
    EntryOk w' e := by
  have hcovered : ∀ x, w'.Covered (tokenOf e) x ↔ w.Covered (tokenOf e) x := by
    intro x
    unfold World.Covered
    rw [hsame.recorded]
  refine ⟨?_, ?_, ?_, h.normal, ?_, ?_, ?_, h.within, h.slots, ?_, ?_, ?_, ?_⟩
  · rw [hsame.recorded]; exact h.some_recorded
  · rw [hsame.recorded]; exact h.proper
  · rw [hsame.recorded]; exact h.disjoint
  · intro x; rw [hcovered]; exact h.covers x
  · rw [hsame.recorded]; exact h.ends
  · rw [hsame.recorded]; exact h.terminal
  · rw [hsame.held]; exact h.pending
  · rw [hsame.recorded]; exact h.outstanding
  · rw [hsame.failed]; exact h.failed
  · exact fun hc => h.completed (hsame.completed hc)

/-- The parts of the invariant that are about the record alone. -/
structure LedgerOk (w : World) : Prop where
  fresh : ∀ p ∈ w.recorded, p.1.incarnation < w.tracker.nextRevision
  agree : ∀ p ∈ w.recorded, ∀ q ∈ w.recorded, p.1.incarnation = q.1.incarnation → p.1 = q.1
  held : ∀ token ∈ w.held, w.recordedOf token ≠ []
  failed : ∀ token ∈ w.failed, w.recordedOf token ≠ []
  completed : ∀ token ∈ w.completed, w.recordedOf token ≠ []

theorem Inv.ledger {w : World} (h : Inv w) : LedgerOk w := ⟨h.fresh, h.agree, h.held, h.failed, h.completed⟩

/-- One shard is replaced: what it keeps, and what the others hold, has its record
untouched, and what is new in it is in order. -/
theorem Inv.update {w w' : World} (h : Inv w) (key : OverlapKey) (shard : List OverlapEntry)
    (hshards : w'.tracker.shards = (w.tracker.putShard key shard).shards) (hseed : w'.tracker.seed = w.tracker.seed)
    (hentries : ∀ e ∈ shard, (e ∈ w.tracker.shardOf key ∧ SameRecord w w' (tokenOf e))
      ∨ (overlapSameDatagram e.key key = true ∧ EntryOk w' e))
    (hothers : ∀ i, i ≠ w.tracker.shardIndex key → ∀ e ∈ w.tracker.shards i, SameRecord w w' (tokenOf e))
    (hunique : shard.Pairwise fun a b => overlapSameDatagram a.key b.key = false) (hledger : LedgerOk w') : Inv w' := by
  have hindex : ∀ k, w'.tracker.shardIndex k = w.tracker.shardIndex k := by
    intro k
    unfold shardIndex
    rw [hseed]
  have hcases : ∀ i e, e ∈ w'.tracker.shards i → (i = w.tracker.shardIndex key ∧ e ∈ shard)
      ∨ (i ≠ w.tracker.shardIndex key ∧ e ∈ w.tracker.shards i) := by
    intro i e he
    rw [hshards, shards_putShard] at he
    split_ifs at he with hi
    · exact .inl ⟨hi, he⟩
    · exact .inr ⟨hi, he⟩
  refine ⟨?_, ?_, ?_, hledger.fresh, hledger.agree, hledger.held, hledger.failed, hledger.completed⟩
  · intro i e he
    rw [hindex]
    rcases hcases i e he with ⟨hi, he⟩ | ⟨-, he⟩
    · rcases hentries e he with ⟨hold, -⟩ | ⟨hsame, -⟩
      · exact (h.home _ e hold).trans hi.symm
      · exact (shardIndex_congr _ hsame).trans hi.symm
    · exact h.home i e he
  · intro i
    rw [hshards, shards_putShard]
    split_ifs
    · exact hunique
    · exact h.unique i
  · intro i e he
    rcases hcases i e he with ⟨-, he⟩ | ⟨hi, he⟩
    · rcases hentries e he with ⟨hold, hsame⟩ | ⟨-, hok⟩
      · exact (h.entries _ e hold).congr hsame
      · exact hok
    · exact (h.entries i e he).congr (hothers i hi e he)

/-- Entries going away break nothing. -/
theorem Inv.shrink {w : World} (h : Inv w) (key : OverlapKey) {rest : List OverlapEntry}
    (hrest : rest.Sublist (w.tracker.shardOf key)) : Inv { w with tracker := w.tracker.putShard key rest } := by
  refine h.update key rest rfl rfl ?_ ?_ ((h.unique _).sublist hrest) ⟨h.fresh, h.agree, h.held, h.failed, h.completed⟩
  · exact fun e he => .inl ⟨hrest.subset he, SameRecord.tracker w _ _⟩
  · exact fun _ _ e _ => SameRecord.tracker w _ _

/-- An entry of the tracker is the one its token names. -/
theorem Inv.eq_of_token {w : World} (h : Inv w) {i j : ℕ} {a b : OverlapEntry} (ha : a ∈ w.tracker.shards i)
    (hb : b ∈ w.tracker.shards j) (hkey : overlapSameDatagram a.key b.key = true) : a = b := by
  have hi := h.home i a ha
  have hj := h.home j b hb
  rw [shardIndex_congr _ hkey, hj] at hi
  subst hi
  exact eq_of_same (h.unique _) ha hb hkey

/-! ## Recording a fragment -/

/-- A world with one more fragment recorded under a token. -/
def noted (w : World) (t : OverlapTracker) (token : OverlapAdmissionToken) (f : Fragment) : World :=
  { w with tracker := t, held := w.held ++ [token], recorded := w.recorded ++ [(token, f)] }

section Noted

variable {w : World} {t : OverlapTracker} {token : OverlapAdmissionToken} {f : Fragment}

theorem recordedOf_noted_self : (noted w t token f).recordedOf token = w.recordedOf token ++ [f] := by
  simp [World.recordedOf, noted]

theorem recordedOf_noted_ne {other : OverlapAdmissionToken} (h : other ≠ token) :
    (noted w t token f).recordedOf other = w.recordedOf other := by
  simp [World.recordedOf, noted, h.symm]

theorem sameRecord_noted {other : OverlapAdmissionToken} (h : other ≠ token) :
    SameRecord w (noted w t token f) other := by
  refine ⟨recordedOf_noted_ne h, ?_, Iff.rfl, id⟩
  have hzero : [token].count other = 0 := List.count_eq_zero.2 (by simpa using h)
  simp only [noted, List.count_append, hzero, Nat.add_zero]

theorem recordedOf_noted_ne_nil {other : OverlapAdmissionToken} (h : w.recordedOf other ≠ [] ∨ other = token) :
    (noted w t token f).recordedOf other ≠ [] := by
  by_cases heq : other = token
  · subst heq
    rw [recordedOf_noted_self]
    simp
  · rw [recordedOf_noted_ne heq]
    exact h.resolve_right heq

theorem mem_recorded_of_ne_nil {w : World} {token : OverlapAdmissionToken} (h : w.recordedOf token ≠ []) :
    ∃ f, (token, f) ∈ w.recorded := by
  obtain ⟨f, hf⟩ := List.exists_mem_of_ne_nil _ h
  obtain ⟨p, hp, rfl⟩ := List.mem_map.1 hf
  obtain ⟨hmem, htoken⟩ := List.mem_filter.1 hp
  rw [decide_eq_true_eq] at htoken
  exact ⟨p.2, htoken ▸ hmem⟩

/-- A token that is known, or new with the next number, keeps the record in order. -/
theorem ledgerOk_noted (h : LedgerOk w) (hnext : t.nextRevision = w.tracker.nextRevision + 1)
    (htoken : w.recordedOf token ≠ [] ∨ token.incarnation = w.tracker.nextRevision) :
    LedgerOk (noted w t token f) := by
  have hold : ∀ p ∈ w.recorded, token.incarnation = p.1.incarnation → token = p.1 := by
    intro p hp heq
    rcases htoken with hknown | hnew
    · obtain ⟨g, hg⟩ := mem_recorded_of_ne_nil hknown
      exact h.agree (token, g) hg p hp heq
    · have := h.fresh p hp
      omega
  have hlt : token.incarnation < t.nextRevision := by
    rcases htoken with hknown | hnew
    · obtain ⟨g, hg⟩ := mem_recorded_of_ne_nil hknown
      have := h.fresh _ hg
      dsimp only at this
      omega
    · omega
  refine ⟨?_, ?_, ?_, ?_, ?_⟩
  · intro p hp
    rcases List.mem_append.1 hp with hp | hp
    · have := h.fresh p hp
      simp only [noted]
      omega
    · rw [List.mem_singleton.1 hp]
      exact hlt
  · intro p hp q hq heq
    rcases List.mem_append.1 hp with hp | hp <;> rcases List.mem_append.1 hq with hq | hq
    · exact h.agree p hp q hq heq
    · rw [List.mem_singleton.1 hq] at heq ⊢
      exact (hold p hp heq.symm).symm
    · rw [List.mem_singleton.1 hp] at heq ⊢
      exact hold q hq heq
    · rw [List.mem_singleton.1 hp, List.mem_singleton.1 hq]
  · intro other hother
    rcases List.mem_append.1 hother with hother | hother
    · exact recordedOf_noted_ne_nil (.inl (h.held other hother))
    · exact recordedOf_noted_ne_nil (.inr (List.mem_singleton.1 hother))
  · exact fun other hother => recordedOf_noted_ne_nil (.inl (h.failed other hother))
  · exact fun other hother => recordedOf_noted_ne_nil (.inl (h.completed other hother))

end Noted

/-- Fragments that are disjoint start at different places. -/
theorem length_le_of_disjoint {fs : List Fragment} (hproper : ∀ f ∈ fs, f.start < f.stop ∧ f.stop < 2 ^ 32)
    (hdisjoint : fs.Pairwise fun f g => f.stop ≤ g.start ∨ g.stop ≤ f.start) : fs.length ≤ 2 ^ 32 - 1 := by
  have hnodup : (fs.map Fragment.start).Nodup := by
    rw [List.Nodup, List.pairwise_map]
    refine hdisjoint.imp_of_mem ?_
    intro f g hf hg hfg
    have := hproper f hf
    have := hproper g hg
    omega
  have hsub : (fs.map Fragment.start).toFinset ⊆ Finset.range (2 ^ 32 - 1) := by
    intro x hx
    obtain ⟨f, hf, rfl⟩ := List.mem_map.1 (List.mem_toFinset.1 hx)
    have := hproper f hf
    rw [Finset.mem_range]
    omega
  have hcard := Finset.card_le_card hsub
  rwa [List.toFinset_card_of_nodup hnodup, Finset.card_range, List.length_map] at hcard

theorem covers_range {fs : List Fragment} {x : ℕ} :
    Covers (fs.map Fragment.range) x ↔ ∃ f ∈ fs, f.start ≤ x ∧ x < f.stop := by
  simp [Covers, Fragment.range]

/-! ### An entry takes a fragment -/

section Take

variable {w : World} {e : OverlapEntry} {f : Fragment} {ranges : List Range}

/-- A fragment that is taken meets none that was. -/
theorem disjoint_of_takes (h : EntryOk w e) (hf : f.start < f.stop) (htakes : Takes e f ranges) :
    ∀ g ∈ w.recordedOf (tokenOf e), g.stop ≤ f.start ∨ f.stop ≤ g.start := by
  intro g hg
  by_contra hmeet
  have hproper := (h.proper g hg).1
  -- a byte of both fragments lies in a range of the entry
  have hcov : Covers e.ranges (max g.start f.start) :=
    (h.covers _).2 (covers_range.2 ⟨g, hg, by omega, by omega⟩)
  obtain ⟨r, hr, hlo, hhi⟩ := hcov
  have hapart := htakes.apart
  simp only [overlaps, List.any_eq_false, decide_eq_true_eq] at hapart
  have := hapart r hr
  omega

/-- An entry whose datagram is complete takes nothing. -/
theorem not_takes_of_complete {n : ℕ} (hproper : f.start < f.stop) (hterminal : e.terminalEnd = some n)
    (hranges : e.ranges = [(0, n)]) : ¬ Takes e f ranges := by
  intro htakes
  have hagrees := htakes.agrees
  have hapart := htakes.apart
  simp only [terminalConflict, hterminal, Bool.or_eq_false_iff, decide_eq_false_iff_not] at hagrees
  simp only [overlaps, hranges, List.any_cons, List.any_nil, Bool.or_false, decide_eq_false_iff_not] at hapart
  omega

/-- What taking a fragment makes of the ranges. -/
theorem ranges_of_takes (h : EntryOk w e) (hproper : f.start < f.stop) (htakes : Takes e f ranges) :
    Normal ranges ∧ (∀ x, Covers ranges x ↔ Covers e.ranges x ∨ (f.start ≤ x ∧ x < f.stop))
      ∧ (∀ r ∈ ranges, (∃ a ∈ e.ranges ++ [f.range], r.1 = a.1) ∧ ∃ b ∈ e.ranges ++ [f.range], r.2 = b.2)
      ∧ ranges.length ≤ overlapMaxRanges := by
  have hmerged := htakes.merged
  rw [mergeRanges_eq] at hmerged
  split_ifs at hmerged with hslots
  obtain rfl := Option.some_inj.1 hmerged
  have hnonempty : ∀ r ∈ e.ranges ++ [(f.start, f.stop)], r.1 < r.2 := by
    intro r hr
    rcases List.mem_append.1 hr with hr | hr
    · exact h.normal.nonempty r hr
    · rw [List.mem_singleton.1 hr]
      exact hproper
  refine ⟨normalized_normal hnonempty, ?_, normalized_ends, hslots⟩
  intro x
  rw [covers_normalized hnonempty, covers_append]
  simp [Covers]

theorem terminal_extend (h : EntryOk w e) (htakes : Takes e f ranges) (revision nowNs n : ℕ) :
    (extend e ranges f.stop f.last revision nowNs).terminalEnd = some n
      ↔ (∃ g ∈ w.recordedOf (tokenOf e), g.last = true ∧ g.stop = n) ∨ (f.last = true ∧ f.stop = n) := by
  have hagrees := htakes.agrees
  rw [← h.terminal n]
  simp only [extend]
  cases hend : e.terminalEnd with
  | some n₀ =>
    simp only [terminalConflict, hend, Bool.or_eq_false_iff, decide_eq_false_iff_not] at hagrees
    cases hlast : f.last with
    | true =>
      simp only [hlast] at hagrees
      simp only [Option.isNone_some, Bool.and_false, Bool.false_eq_true, if_false, Option.some_inj, true_and]
      have : f.stop = n₀ := by simpa using hagrees.1.2
      omega
    | false => simp
  | none =>
    cases hlast : f.last with
    | true => simp
    | false => simp

theorem within_extend (h : EntryOk w e) (hproper : f.start < f.stop) (htakes : Takes e f ranges)
    (revision nowNs n : ℕ) (hend : (extend e ranges f.stop f.last revision nowNs).terminalEnd = some n) :
    ∀ r ∈ ranges, r.2 ≤ n := by
  have hold : f.stop ≤ n ∧ ∀ r ∈ e.ranges, r.2 ≤ n := by
    have hagrees := htakes.agrees
    simp only [extend] at hend
    cases hterminal : e.terminalEnd with
    | some n₀ =>
      rw [hterminal] at hend
      simp only [Option.isNone_some, Bool.and_false, Bool.false_eq_true, if_false, Option.some_inj] at hend
      subst hend
      simp only [terminalConflict, hterminal, Bool.or_eq_false_iff, decide_eq_false_iff_not] at hagrees
      exact ⟨by omega, h.within _ hterminal⟩
    | none =>
      rw [hterminal] at hend
      cases hlast : f.last with
      | true =>
        simp only [hlast, Option.isNone_none, Bool.and_self, if_true, Option.some_inj] at hend
        simp only [terminalConflict, hterminal, hlast, Bool.true_and, List.any_eq_false, decide_eq_true_eq] at hagrees
        refine ⟨by omega, fun r hr => ?_⟩
        have := hagrees r hr
        omega
      | false => simp [hlast] at hend
  intro r hr
  obtain ⟨b, hb, heq⟩ := ((ranges_of_takes h hproper htakes).2.2.1 r hr).2
  rw [heq]
  rcases List.mem_append.1 hb with hb | hb
  · exact hold.2 b hb
  · rw [List.mem_singleton.1 hb]
    exact hold.1

theorem entryOk_extend (h : EntryOk w e) (hproper : f.start < f.stop) (hsize : f.stop < 2 ^ 32)
    (htakes : Takes e f ranges) (t : OverlapTracker) (revision nowNs : ℕ) :
    EntryOk (noted w t (tokenOf e) f) (extend e ranges f.stop f.last revision nowNs) := by
  obtain ⟨hnormal, hcovers, hends, hslots⟩ := ranges_of_takes h hproper htakes
  have htoken : tokenOf (extend e ranges f.stop f.last revision nowNs) = tokenOf e := rfl
  have hrecorded : (noted w t (tokenOf e) f).recordedOf (tokenOf e) = w.recordedOf (tokenOf e) ++ [f] :=
    recordedOf_noted_self
  have hmeet := disjoint_of_takes h hproper htakes
  have hproper' : ∀ g ∈ w.recordedOf (tokenOf e) ++ [f], g.start < g.stop ∧ g.stop < 2 ^ 32 := by
    intro g hg
    rcases List.mem_append.1 hg with hg | hg
    · exact h.proper g hg
    · rw [List.mem_singleton.1 hg]
      exact ⟨hproper, hsize⟩
  have hdisjoint' : (w.recordedOf (tokenOf e) ++ [f]).Pairwise fun f g => f.stop ≤ g.start ∨ g.stop ≤ f.start := by
    refine List.pairwise_append.2 ⟨h.disjoint, List.pairwise_singleton _ _, fun g hg f' hf' => ?_⟩
    rw [List.mem_singleton.1 hf']
    exact hmeet g hg
  have hcount : (noted w t (tokenOf e) f).held.count (tokenOf e) = w.held.count (tokenOf e) + 1 := by
    simp [noted]
  -- the reservations are fewer than the bytes, so the counter does not saturate
  have hpending : saturatingAdd32 e.pending 1 = e.pending + 1 := by
    have hlength := length_le_of_disjoint hproper' hdisjoint'
    have := h.outstanding
    rw [List.length_append, List.length_singleton] at hlength
    unfold saturatingAdd32
    omega
  refine ⟨?_, ?_, ?_, hnormal, ?_, ?_, ?_, ?_, hslots, ?_, ?_, h.failed, ?_⟩
  · rw [htoken, hrecorded]
    simp
  · rw [htoken, hrecorded]
    exact hproper'
  · rw [htoken, hrecorded]
    exact hdisjoint'
  · intro x
    have hsplit : (noted w t (tokenOf e) f).Covered (tokenOf e) x
        ↔ w.Covered (tokenOf e) x ∨ (f.start ≤ x ∧ x < f.stop) := by
      unfold World.Covered
      rw [hrecorded, List.map_append, covers_append]
      simp [Covers, Fragment.range]
    rw [htoken, hsplit, ← h.covers x]
    exact hcovers x
  · intro r hr
    rw [htoken, hrecorded]
    obtain ⟨⟨a, ha, hstart⟩, b, hb, hstop⟩ := hends r hr
    refine ⟨?_, ?_⟩
    · rcases List.mem_append.1 ha with ha | ha
      · obtain ⟨g, hg, heq⟩ := (h.ends a ha).1
        exact ⟨g, List.mem_append_left _ hg, hstart.trans heq⟩
      · exact ⟨f, List.mem_append_right _ List.mem_cons_self, by rw [hstart, List.mem_singleton.1 ha]; rfl⟩
    · rcases List.mem_append.1 hb with hb | hb
      · obtain ⟨g, hg, heq⟩ := (h.ends b hb).2
        exact ⟨g, List.mem_append_left _ hg, hstop.trans heq⟩
      · exact ⟨f, List.mem_append_right _ List.mem_cons_self, by rw [hstop, List.mem_singleton.1 hb]; rfl⟩
  · intro n
    rw [htoken, hrecorded, terminal_extend h htakes]
    simp only [List.mem_append, List.mem_singleton, or_and_right, exists_or, exists_eq_left]
  · exact within_extend h hproper htakes revision nowNs
  · rw [htoken, hcount, ← h.pending]
    exact hpending
  · rw [htoken, hrecorded, List.length_append, List.length_singleton]
    have := h.outstanding
    simp only [extend, hpending]
    omega
  · intro hdone
    obtain ⟨n, hterminal, hranges⟩ := h.completed hdone
    exact absurd htakes (not_takes_of_complete hproper hterminal hranges)

end Take

theorem entryOk_create {w : World} (token : OverlapAdmissionToken) (hledger : LedgerOk w)
    (hnew : w.recordedOf token = []) {f : Fragment} (hproper : f.start < f.stop) (hsize : f.stop < 2 ^ 32)
    (t : OverlapTracker) (nowNs : ℕ) :
    EntryOk (noted w t token f) (create token.key f.start f.stop f.last token.incarnation nowNs) := by
  have htoken : tokenOf (create token.key f.start f.stop f.last token.incarnation nowNs) = token := rfl
  have hrecorded : (noted w t token f).recordedOf token = [f] := by
    rw [recordedOf_noted_self, hnew, List.nil_append]
  have hnot : ∀ tokens : List OverlapAdmissionToken, (∀ t ∈ tokens, w.recordedOf t ≠ []) → token ∉ tokens :=
    fun tokens h hmem => h token hmem hnew
  have hslots : 1 ≤ overlapMaxRanges := by decide
  refine ⟨?_, ?_, ?_, ⟨?_, List.pairwise_singleton _ _⟩, ?_, ?_, ?_, ?_, hslots, ?_, ?_, ?_, ?_⟩
  · rw [htoken, hrecorded]
    simp
  · rw [htoken, hrecorded]
    intro g hg
    rw [List.mem_singleton.1 hg]
    exact ⟨hproper, hsize⟩
  · rw [htoken, hrecorded]
    exact List.pairwise_singleton _ _
  · intro r hr
    rw [List.mem_singleton.1 hr]
    exact hproper
  · intro x
    unfold World.Covered
    rw [htoken, hrecorded]
    rfl
  · intro r hr
    rw [htoken, hrecorded, List.mem_singleton.1 hr]
    exact ⟨⟨f, List.mem_cons_self, rfl⟩, f, List.mem_cons_self, rfl⟩
  · intro n
    rw [htoken, hrecorded]
    cases hlast : f.last <;> simp [create, hlast]
  · intro n hend r hr
    rw [List.mem_singleton.1 hr]
    cases hlast : f.last with
    | true =>
      simp only [create, hlast, if_true, Option.some_inj] at hend
      exact Nat.le_of_eq hend
    | false => simp [create, hlast] at hend
  · rw [htoken]
    simp [noted, create, List.count_eq_zero.2 (hnot _ hledger.held)]
  · rw [htoken, hrecorded]
    exact Nat.le_refl 1
  · rw [htoken]
    exact iff_of_false (by simp [create]) (hnot _ hledger.failed)
  · rw [htoken]
    exact fun hdone => absurd hdone (hnot _ hledger.completed)

/-! ## The operations keep the invariant -/

theorem record_eq_noted {w : World} {key : OverlapKey} {f : Fragment} {nowNs : ℕ} {result : OverlapCheckResult}
    {t : OverlapTracker} {token : OverlapAdmissionToken}
    (h : w.tracker.checkAndRecordFragmentDetailed key f.start f.stop f.last nowNs = (result, t))
    (htoken : result.admission = some token) : w.record key f nowNs = noted w t token f := by
  unfold World.record
  rw [h]
  simp only [htoken]
  rfl

theorem record_eq_tracker {w : World} {key : OverlapKey} {f : Fragment} {nowNs : ℕ} {result : OverlapCheckResult}
    {t : OverlapTracker} (h : w.tracker.checkAndRecordFragmentDetailed key f.start f.stop f.last nowNs = (result, t))
    (hnone : result.admission = none) : w.record key f nowNs = { w with tracker := t } := by
  unfold World.record
  rw [h]
  simp only [hnone]

/-- What a record can make of a world. -/
inductive WorldEnd (w : World) (key : OverlapKey) (f : Fragment) (nowNs : ℕ) : World → Prop where
  | kept (hempty : f.stop ≤ f.start) : WorldEnd w key f nowNs w
  | rejected (e : OverlapEntry) (hfind : find (swept w.tracker key nowNs) key = some e)
      (hwhy : ∀ ranges, ¬ Takes e f ranges) :
      WorldEnd w key f nowNs { w with tracker := w.tracker.putShard key (swept w.tracker key nowNs) }
  | full (rest : List OverlapEntry) (hfind : find (swept w.tracker key nowNs) key = none)
      (hroom : makeRoom (swept w.tracker key nowNs) key = .error rest) :
      WorldEnd w key f nowNs { w with tracker := w.tracker.putShard key rest }
  | extended (e : OverlapEntry) (ranges : List Range) (hproper : f.start < f.stop)
      (hfind : find (swept w.tracker key nowNs) key = some e) (htakes : Takes e f ranges) :
      WorldEnd w key f nowNs (noted w
        { w.tracker.putShard key ((swept w.tracker key nowNs).eraseP (fun e => overlapSameDatagram e.key key)
            ++ [extend e ranges f.stop f.last w.tracker.nextRevision nowNs]) with
          nextRevision := w.tracker.nextRevision + 1 } (tokenOf e) f)
  | created (room : List OverlapEntry) (hproper : f.start < f.stop)
      (hfind : find (swept w.tracker key nowNs) key = none)
      (hroom : makeRoom (swept w.tracker key nowNs) key = .ok room) :
      WorldEnd w key f nowNs (noted w
        { w.tracker.putShard key (room ++ [create key f.start f.stop f.last w.tracker.nextRevision nowNs]) with
          nextRevision := w.tracker.nextRevision + 1 } ⟨key, w.tracker.nextRevision⟩ f)

theorem world_end (w : World) (key : OverlapKey) (f : Fragment) (nowNs : ℕ) :
    WorldEnd w key f nowNs (w.record key f nowNs) := by
  have hend := record_end w.tracker key f nowNs
  generalize hresult : w.tracker.checkAndRecordFragmentDetailed key f.start f.stop f.last nowNs = result at hend
  cases hend with
  | empty result hempty hnone =>
    rw [record_eq_tracker hresult hnone]
    exact .kept hempty
  | rejected result e hnone hfind hwhy =>
    rw [record_eq_tracker hresult hnone]
    exact .rejected e hfind hwhy
  | full result rest hnone hfind hroom =>
    rw [record_eq_tracker hresult hnone]
    exact .full rest hfind hroom
  | extended e ranges evictions hproper hfind htakes =>
    rw [record_eq_noted hresult rfl]
    exact .extended e ranges hproper hfind htakes
  | created room evictions hproper hfind hroom =>
    rw [record_eq_noted hresult rfl]
    exact .created room hproper hfind hroom

/-- The next number is not in the record. -/
theorem Inv.recordedOf_next {w : World} (h : Inv w) (key : OverlapKey) :
    w.recordedOf ⟨key, w.tracker.nextRevision⟩ = [] := by
  by_contra hknown
  obtain ⟨g, hg⟩ := mem_recorded_of_ne_nil hknown
  exact absurd (h.fresh _ hg) (Nat.lt_irrefl _)

theorem inv_record {w : World} (h : Inv w) (key : OverlapKey) {f : Fragment} (hsize : f.stop < 2 ^ 32) (nowNs : ℕ) :
    Inv (w.record key f nowNs) := by
  have hend := world_end w key f nowNs
  generalize w.record key f nowNs = w' at hend
  have hsub := swept_sublist w.tracker key nowNs
  have hswept := (h.unique (w.tracker.shardIndex key)).sublist hsub
  cases hend with
  | kept _ => exact h
  | rejected _ _ _ => exact h.shrink key hsub
  | full rest _ hroom => exact h.shrink key (((makeRoom_shrinks _ _).error rest hroom).trans hsub)
  | extended e ranges hproper hfind htakes =>
    obtain ⟨he, hsame⟩ := mem_of_find hfind
    have hmem : e ∈ w.tracker.shardOf key := hsub.subset he
    have hok := h.entries _ e hmem
    have hrest : ∀ a ∈ (swept w.tracker key nowNs).eraseP fun e => overlapSameDatagram e.key key,
        a ∈ w.tracker.shardOf key ∧ overlapSameDatagram a.key key = false :=
      fun a ha => ⟨hsub.subset (List.eraseP_sublist.subset ha), not_same_of_mem_eraseP hswept ha⟩
    have hne : ∀ i, ∀ a ∈ w.tracker.shards i, overlapSameDatagram a.key key = false → tokenOf a ≠ tokenOf e := by
      intro i a _ hdiff heq
      have hkey : a.key = e.key := congrArg OverlapAdmissionToken.key heq
      rw [hkey, hsame] at hdiff
      exact absurd hdiff (by decide)
    refine h.update key _ rfl rfl ?_ ?_ ?_ (ledgerOk_noted h.ledger rfl (.inl hok.some_recorded))
    · intro a ha
      rcases List.mem_append.1 ha with ha | ha
      · obtain ⟨hold, hdiff⟩ := hrest a ha
        exact .inl ⟨hold, sameRecord_noted (hne _ a hold hdiff)⟩
      · rw [List.mem_singleton.1 ha]
        exact .inr ⟨hsame, entryOk_extend hok hproper hsize htakes _ _ _⟩
    · intro i hi a ha
      refine sameRecord_noted (hne i a ha ?_)
      by_contra hsame'
      have := shardIndex_congr w.tracker (Bool.eq_true_of_not_eq_false hsame')
      rw [h.home i a ha] at this
      exact hi this
    · refine List.pairwise_append.2 ⟨hswept.sublist List.eraseP_sublist, List.pairwise_singleton _ _, ?_⟩
      intro a ha b hb
      rw [List.mem_singleton.1 hb]
      by_contra hsame'
      have := same_trans (Bool.eq_true_of_not_eq_false hsame') hsame
      rw [(hrest a ha).2] at this
      exact absurd this Bool.false_ne_true
  | created room hproper hfind hroom =>
    have hroomsub := (makeRoom_shrinks _ _).ok room hroom
    have hnone : ∀ a ∈ swept w.tracker key nowNs, overlapSameDatagram a.key key = false := by
      intro a ha
      by_contra hsame
      rw [find_eq hswept ha (Bool.eq_true_of_not_eq_false hsame)] at hfind
      exact absurd hfind (by simp)
    have hnew := h.recordedOf_next key
    have hne : ∀ i, ∀ a ∈ w.tracker.shards i, tokenOf a ≠ ⟨key, w.tracker.nextRevision⟩ := by
      intro i a ha heq
      exact (h.entries i a ha).some_recorded (heq ▸ hnew)
    refine h.update key _ rfl rfl ?_ ?_ ?_ (ledgerOk_noted h.ledger rfl (.inr rfl))
    · intro a ha
      rcases List.mem_append.1 ha with ha | ha
      · have hold := hsub.subset (hroomsub.subset ha)
        exact .inl ⟨hold, sameRecord_noted (hne _ a hold)⟩
      · rw [List.mem_singleton.1 ha]
        exact .inr ⟨same_refl key,
          entryOk_create ⟨key, w.tracker.nextRevision⟩ h.ledger hnew hproper hsize _ _⟩
    · exact fun i _ a ha => sameRecord_noted (hne i a ha)
    · refine List.pairwise_append.2 ⟨hswept.sublist hroomsub, List.pairwise_singleton _ _, ?_⟩
      intro a ha b hb
      rw [List.mem_singleton.1 hb]
      exact hnone a (hroomsub.subset ha)

/-! ### Settling -/

theorem rangesCoverTerminal_iff {e : OverlapEntry} (h : Normal e.ranges) (n : ℕ) :
    rangesCoverTerminal e n = true ↔ e.ranges = [(0, n)] := by
  unfold rangesCoverTerminal
  cases hranges : e.ranges with
  | nil => simp
  | cons first rest =>
    rw [hranges] at h
    by_cases hzero : first.1 = 0
    · simp only [hzero, ne_eq, not_true_eq_false, if_false, decide_eq_true_eq, coveredEnd, Nat.not_lt_zero]
      cases rest with
      | nil =>
        simp only [coveredEnd, Nat.zero_max, Option.some_inj, List.cons.injEq, and_true]
        exact ⟨fun h => Prod.ext hzero h, fun h => congrArg Prod.snd h⟩
      | cons second rest =>
        -- the second range leaves a gap
        have hgap := (List.pairwise_cons.1 h.apart).1 second List.mem_cons_self
        simp only [coveredEnd, Nat.zero_max, if_pos hgap]
        simp
    · have hne : ¬ first :: rest = [(0, n)] := fun heq => hzero (congrArg Prod.fst (List.cons.inj heq).1)
      simp [hzero, hne]

theorem settled_eq_some {t : OverlapTracker} {token : OverlapAdmissionToken} {e : OverlapEntry} :
    t.settled token = some e ↔ find (t.shardOf token.key) token.key = some e
      ∧ e.incarnation = token.incarnation ∧ e.pending ≠ 0 := by
  simp only [settled, Option.filter_eq_some_iff, Bool.and_eq_true, decide_eq_true_eq]

theorem mem_updateFirst {key : OverlapKey} {e' : OverlapEntry} {shard : List OverlapEntry}
    (h : shard.Pairwise fun a b => overlapSameDatagram a.key b.key = false) {a : OverlapEntry}
    (ha : a ∈ updateFirst key (fun _ => e') shard) : a = e' ∨ (a ∈ shard ∧ overlapSameDatagram a.key key = false) := by
  induction shard with
  | nil => exact absurd ha List.not_mem_nil
  | cons first rest ih =>
    obtain ⟨hfirst, hrest⟩ := List.pairwise_cons.1 h
    unfold updateFirst at ha
    by_cases hsame : overlapSameDatagram first.key key = true
    · rw [if_pos hsame] at ha
      rcases List.mem_cons.1 ha with rfl | ha
      · exact .inl rfl
      · refine .inr ⟨List.mem_cons_of_mem _ ha, ?_⟩
        by_contra hsame'
        have := same_trans hsame (same_symm (Bool.eq_true_of_not_eq_false hsame'))
        rw [hfirst a ha] at this
        exact absurd this Bool.false_ne_true
    · rw [if_neg hsame] at ha
      rcases List.mem_cons.1 ha with rfl | ha
      · exact .inr ⟨List.mem_cons_self, Bool.eq_false_of_not_eq_true hsame⟩
      · exact (ih hrest ha).imp_right fun hmem => ⟨List.mem_cons_of_mem _ hmem.1, hmem.2⟩

theorem map_key_updateFirst {key : OverlapKey} {e e' : OverlapEntry} {shard : List OverlapEntry}
    (hfind : find shard key = some e) (hkey : e'.key = e.key) :
    (updateFirst key (fun _ => e') shard).map OverlapEntry.key = shard.map OverlapEntry.key := by
  induction shard with
  | nil => rfl
  | cons first rest ih =>
    unfold updateFirst
    by_cases hsame : overlapSameDatagram first.key key = true
    · unfold find at hfind
      rw [List.find?_cons_of_pos (by exact hsame)] at hfind
      rw [if_pos hsame, List.map_cons, List.map_cons, hkey, Option.some_inj.1 hfind]
    · unfold find at hfind
      rw [List.find?_cons_of_neg (by simpa using hsame)] at hfind
      rw [if_neg hsame, List.map_cons, List.map_cons, ih hfind]

theorem count_eraseIdx {tokens : List OverlapAdmissionToken} {n : ℕ} {token : OverlapAdmissionToken}
    (h : tokens[n]? = some token) (other : OverlapAdmissionToken) :
    tokens.count other = (tokens.eraseIdx n).count other + if other = token then 1 else 0 := by
  obtain ⟨hlt, hget⟩ := List.getElem?_eq_some_iff.1 h
  have hperm := (List.getElem_cons_eraseIdx_perm hlt).count_eq other
  rw [hget, List.count_cons] at hperm
  rw [← hperm]
  by_cases heq : other = token
  · simp [heq]
  · have hne : ¬ token = other := fun h => heq h.symm
    simp [heq, hne]

/-- A world in which one reservation of `w` has been settled, with the entry it belongs to
changed, or nothing where that entry is gone. -/
structure Settles (w w' : World) (n : ℕ) (token : OverlapAdmissionToken) : Prop where
  taken : w.held[n]? = some token
  held : w'.held = w.held.eraseIdx n
  recorded : w'.recorded = w.recorded
  failed : ∀ t ∈ w'.failed, t ∈ w.failed ∨ t = token
  stillFailed : ∀ t ∈ w.failed, t ∈ w'.failed
  completed : ∀ t ∈ w'.completed, t ∈ w.completed ∨ t = token
  stillCompleted : ∀ t ∈ w.completed, t ∈ w'.completed
  tracker : (w.tracker.settled token = none ∧ w'.tracker = w.tracker)
    ∨ ∃ e e', w.tracker.settled token = some e ∧ tokenOf e' = tokenOf e ∧ EntryOk w' e'
      ∧ w'.tracker = w.tracker.putShard token.key (updateFirst token.key (fun _ => e') (w.tracker.shardOf token.key))

section Settles

variable {w w' : World} {n : ℕ} {token : OverlapAdmissionToken}

theorem Settles.sameRecord (h : Settles w w' n token) {other : OverlapAdmissionToken} (hne : other ≠ token) :
    SameRecord w w' other := by
  refine ⟨?_, ?_, ?_, ?_⟩
  · unfold World.recordedOf
    rw [h.recorded]
  · have hcount := count_eraseIdx h.taken other
    rw [if_neg hne] at hcount
    rw [h.held]
    omega
  · exact ⟨fun hmem => (h.failed other hmem).resolve_right hne, h.stillFailed other⟩
  · exact fun hmem => (h.completed other hmem).resolve_right hne

theorem Settles.ledger (h : Settles w w' n token) (hw : Inv w)
    (hnext : w'.tracker.nextRevision = w.tracker.nextRevision) : LedgerOk w' := by
  have hrecorded : ∀ t, w'.recordedOf t = w.recordedOf t := by
    intro t
    unfold World.recordedOf
    rw [h.recorded]
  have htoken : w.recordedOf token ≠ [] := hw.held token (List.mem_of_getElem? h.taken)
  refine ⟨?_, ?_, ?_, ?_, ?_⟩
  · rw [h.recorded, hnext]
    exact hw.fresh
  · rw [h.recorded]
    exact hw.agree
  · intro t ht
    rw [h.held] at ht
    rw [hrecorded]
    exact hw.held t ((List.eraseIdx_sublist ..).subset ht)
  · intro t ht
    rw [hrecorded]
    rcases h.failed t ht with ht | rfl
    · exact hw.failed t ht
    · exact htoken
  · intro t ht
    rw [hrecorded]
    rcases h.completed t ht with ht | rfl
    · exact hw.completed t ht
    · exact htoken

/-- The entry that a token settles is the token's own. -/
theorem Inv.tokenOf_settled (h : Inv w) (hheld : token ∈ w.held) {e : OverlapEntry}
    (he : w.tracker.settled token = some e) : e ∈ w.tracker.shardOf token.key ∧ tokenOf e = token := by
  obtain ⟨hfind, hincarnation, -⟩ := settled_eq_some.1 he
  obtain ⟨hmem, -⟩ := mem_of_find hfind
  obtain ⟨f, hf⟩ := mem_recorded_of_ne_nil (h.entries _ e hmem).some_recorded
  obtain ⟨g, hg⟩ := mem_recorded_of_ne_nil (h.held token hheld)
  exact ⟨hmem, h.agree _ hf _ hg hincarnation⟩

/-- The entry of a token that is held is there to be settled, or nowhere. -/
theorem Inv.settled_of_mem (h : Inv w) (hheld : token ∈ w.held) {i : ℕ} {e : OverlapEntry}
    (he : e ∈ w.tracker.shards i) (htoken : tokenOf e = token) : w.tracker.settled token = some e := by
  subst htoken
  have hi := h.home i e he
  refine settled_eq_some.2 ⟨find_eq (h.unique _) ?_ (same_refl _), rfl, ?_⟩
  · change e ∈ w.tracker.shards (w.tracker.shardIndex e.key)
    rw [hi]
    exact he
  · rw [(h.entries i e he).pending]
    exact (List.count_pos_iff.2 hheld).ne'

theorem inv_settles (hw : Inv w) (h : Settles w w' n token) : Inv w' := by
  have hheld : token ∈ w.held := List.mem_of_getElem? h.taken
  rcases h.tracker with ⟨hnone, htracker⟩ | ⟨e, e', hsettled, htoken, hok, htracker⟩
  · -- no entry has the token, so every record is what it was
    have hsame : ∀ i, ∀ a ∈ w.tracker.shards i, SameRecord w w' (tokenOf a) := by
      intro i a ha
      refine h.sameRecord fun heq => ?_
      rw [hw.settled_of_mem hheld ha heq] at hnone
      exact absurd hnone (by simp)
    refine hw.update token.key (w.tracker.shardOf token.key) ?_ (by rw [htracker]) ?_ ?_ (hw.unique _)
      (h.ledger hw (by rw [htracker]))
    · funext i
      rw [htracker, shards_putShard]
      split_ifs with hi
      · rw [hi]
        rfl
      · rfl
    · exact fun a ha => .inl ⟨ha, hsame _ a ha⟩
    · exact fun i _ a ha => hsame i a ha
  · obtain ⟨hmem, rfl⟩ := hw.tokenOf_settled hheld hsettled
    obtain ⟨hfind, -, -⟩ := settled_eq_some.1 hsettled
    have hkey : e'.key = e.key := congrArg OverlapAdmissionToken.key htoken
    refine hw.update e.key _ (by rw [htracker]; rfl) (by rw [htracker]; rfl) ?_ ?_ ?_
      (h.ledger hw (by rw [htracker]; rfl))
    · intro a ha
      rcases mem_updateFirst (hw.unique _) ha with rfl | ⟨hold, hdiff⟩
      · exact .inr ⟨hkey ▸ same_refl _, hok⟩
      · refine .inl ⟨hold, h.sameRecord fun heq => ?_⟩
        have : a.key = e.key := congrArg OverlapAdmissionToken.key heq
        rw [this] at hdiff
        exact absurd ((same_refl e.key).symm.trans hdiff) (by decide)
    · intro i hi a ha
      refine h.sameRecord fun heq => hi ?_
      have : a.key = e.key := congrArg OverlapAdmissionToken.key heq
      rw [← this, hw.home i a ha]
    · have hpairwise := hw.unique (w.tracker.shardIndex e.key)
      rw [← List.pairwise_map (f := OverlapEntry.key) (R := fun a b => overlapSameDatagram a b = false)] at hpairwise ⊢
      rw [map_key_updateFirst hfind hkey]
      exact hpairwise

end Settles

/-- The entry of a reservation that is settled, with one reservation less. -/
theorem EntryOk.settle {w w' : World} {e : OverlapEntry} (h : EntryOk w e) {n : ℕ}
    (htaken : w.held[n]? = some (tokenOf e)) (hheld : w'.held = w.held.eraseIdx n)
    (hrecorded : w'.recorded = w.recorded) (failed : Bool) (hfailed : failed = true ↔ tokenOf e ∈ w'.failed)
    (hcompleted : tokenOf e ∈ w'.completed → ∃ n, e.terminalEnd = some n ∧ e.ranges = [(0, n)]) :
    EntryOk w' { e with pending := e.pending - 1, failed := failed } := by
  have hsame : w'.recordedOf (tokenOf e) = w.recordedOf (tokenOf e) := by
    unfold World.recordedOf
    rw [hrecorded]
  have hcovered : ∀ x, w'.Covered (tokenOf e) x ↔ w.Covered (tokenOf e) x := by
    intro x
    unfold World.Covered
    rw [hsame]
  have htoken : tokenOf { e with pending := e.pending - 1, failed := failed } = tokenOf e := rfl
  refine ⟨?_, ?_, ?_, h.normal, ?_, ?_, ?_, h.within, h.slots, ?_, ?_, hfailed, hcompleted⟩
  · rw [htoken, hsame]; exact h.some_recorded
  · rw [htoken, hsame]; exact h.proper
  · rw [htoken, hsame]; exact h.disjoint
  · intro x; rw [htoken, hcovered]; exact h.covers x
  · rw [htoken, hsame]; exact h.ends
  · rw [htoken, hsame]; exact h.terminal
  · have hcount := count_eraseIdx htaken (tokenOf e)
    rw [if_pos rfl] at hcount
    have := h.pending
    rw [htoken, hheld]
    dsimp only
    omega
  · rw [htoken, hsame]
    exact (Nat.sub_le _ _).trans h.outstanding

/-- When a commit of a reservation of the entry reports completion. -/
theorem commitAdmission_of_settled {t : OverlapTracker} {token : OverlapAdmissionToken} {e : OverlapEntry}
    (h : t.settled token = some e) (hnormal : Normal e.ranges) :
    (t.commitAdmission token).1 = true
      ↔ e.pending = 1 ∧ e.failed = false ∧ ∃ n, e.terminalEnd = some n ∧ e.ranges = [(0, n)] := by
  obtain ⟨-, -, hpending⟩ := settled_eq_some.1 h
  have hone : e.pending - 1 = 0 ↔ e.pending = 1 := by omega
  have hcover : e.terminalEnd.any (rangesCoverTerminal { e with pending := e.pending - 1 } ·) = true
      ↔ ∃ n, e.terminalEnd = some n ∧ e.ranges = [(0, n)] := by
    rw [Option.any_eq_true]
    refine exists_congr fun n => and_congr_right fun _ => ?_
    exact rangesCoverTerminal_iff (e := { e with pending := e.pending - 1 }) hnormal n
  unfold commitAdmission
  rw [h]
  simp only [Bool.and_eq_true, decide_eq_true_eq, Bool.not_eq_true', hone, hcover, and_assoc]

theorem settles_commit {w : World} (h : Inv w) {n : ℕ} {token : OverlapAdmissionToken}
    (htaken : w.held[n]? = some token) : Settles w (w.commit n) n token := by
  have hheld : token ∈ w.held := List.mem_of_getElem? htaken
  unfold World.commit
  rw [htaken]
  dsimp only
  refine ⟨htaken, rfl, rfl, fun t ht => .inl ht, fun t ht => ht, ?_, ?_, ?_⟩
  · intro t ht
    dsimp only at ht
    split_ifs at ht
    · exact (List.mem_append.1 ht).imp_right List.mem_singleton.1
    · exact .inl ht
  · intro t ht
    dsimp only
    split_ifs
    · exact List.mem_append_left _ ht
    · exact ht
  · cases hsettled : w.tracker.settled token with
    | none => exact .inl ⟨rfl, by simp only [commitAdmission, hsettled]⟩
    | some e =>
      obtain ⟨hmem, rfl⟩ := h.tokenOf_settled hheld hsettled
      have hok := h.entries _ e hmem
      refine .inr ⟨e, { e with pending := e.pending - 1 }, rfl, rfl, ?_, by simp only [commitAdmission, hsettled]⟩
      refine hok.settle htaken ?_ ?_ e.failed hok.failed ?_
      · rfl
      · rfl
      · intro hdone
        dsimp only at hdone
        split_ifs at hdone with hreport
        · exact ((commitAdmission_of_settled hsettled hok.normal).1 hreport).2.2
        · exact hok.completed hdone

theorem settles_fail {w : World} (h : Inv w) {n : ℕ} {token : OverlapAdmissionToken}
    (htaken : w.held[n]? = some token) : Settles w (w.fail n) n token := by
  have hheld : token ∈ w.held := List.mem_of_getElem? htaken
  unfold World.fail
  rw [htaken]
  dsimp only
  refine ⟨htaken, rfl, rfl, ?_, fun t ht => List.mem_append_left _ ht, fun t ht => .inl ht, fun t ht => ht, ?_⟩
  · exact fun t ht => (List.mem_append.1 ht).imp_right List.mem_singleton.1
  · cases hsettled : w.tracker.settled token with
    | none => exact .inl ⟨rfl, by simp only [failAdmission, hsettled]⟩
    | some e =>
      obtain ⟨hmem, rfl⟩ := h.tokenOf_settled hheld hsettled
      have hok := h.entries _ e hmem
      refine .inr ⟨e, { e with pending := e.pending - 1, failed := true }, rfl, rfl, ?_,
        by simp only [failAdmission, hsettled]⟩
      refine hok.settle htaken ?_ ?_ true ?_ hok.completed
      · rfl
      · rfl
      · exact iff_of_true rfl (List.mem_append_right _ List.mem_cons_self)

/-- A reservation that is not held is not settled. -/
theorem commit_none {w : World} {n : ℕ} (h : w.held[n]? = none) : w.commit n = w := by
  unfold World.commit
  rw [h]

theorem fail_none {w : World} {n : ℕ} (h : w.held[n]? = none) : w.fail n = w := by
  unfold World.fail
  rw [h]

theorem inv_step {w : World} (h : Inv w) (op : Op) : Inv (w.step op) := by
  cases op with
  | check key start stop isLast now =>
    unfold World.step
    dsimp only
    rcases check_tracker w.tracker key start.toNat stop.toNat isLast now.toNat with hsame | hswept
    · rw [hsame]
      exact h
    · rw [hswept]
      exact h.shrink key (swept_sublist ..)
  | record key start stop isLast now => exact inv_record h key stop.toNat_lt now.toNat
  | commit n =>
    change Inv (w.commit n)
    cases htaken : w.held[n]? with
    | none => rwa [commit_none htaken]
    | some token => exact inv_settles h (settles_commit h htaken)
  | fail n =>
    change Inv (w.fail n)
    cases htaken : w.held[n]? with
    | none => rwa [fail_none htaken]
    | some token => exact inv_settles h (settles_fail h htaken)

theorem inv_init (seed : UInt64) : Inv (World.init seed) := by
  refine ⟨?_, fun _ => List.Pairwise.nil, ?_, ?_, ?_, ?_, ?_, ?_⟩
  · exact fun _ e he => absurd he List.not_mem_nil
  · exact fun _ e he => absurd he List.not_mem_nil
  · exact fun p hp => absurd hp List.not_mem_nil
  · exact fun p hp => absurd hp List.not_mem_nil
  · exact fun t ht => absurd ht List.not_mem_nil
  · exact fun t ht => absurd ht List.not_mem_nil
  · exact fun t ht => absurd ht List.not_mem_nil

/-- The invariant holds in every world a history leads to. -/
theorem inv_after (seed : UInt64) (ops : List Op) : Inv ((World.init seed).after ops) :=
  run_invariant (P := Inv) (inv_init seed) (fun _ op h => inv_step h op) ops

/-! ## What holds in every history -/

/-- A commit reports completion exactly when the entry of the token is there, its fragments
are all of the datagram, no other reservation of it is open and none was failed. -/
theorem commitAdmission_iff {w : World} (h : Inv w) {n : ℕ} {token : OverlapAdmissionToken}
    (htaken : w.held[n]? = some token) : (w.tracker.commitAdmission token).1 = true
      ↔ ∃ e, w.Holds e ∧ tokenOf e = token ∧ (∃ stop, e.terminalEnd = some stop ∧ ∀ x, w.Covered token x ↔ x < stop)
        ∧ token ∉ w.held.eraseIdx n ∧ token ∉ w.failed := by
  have hheld : token ∈ w.held := List.mem_of_getElem? htaken
  have hone : ∀ e, w.Holds e → tokenOf e = token → (e.pending = 1 ↔ token ∉ w.held.eraseIdx n) := by
    rintro e he rfl
    have hcount := count_eraseIdx htaken (tokenOf e)
    rw [if_pos rfl, ← (h.entries _ e he).pending] at hcount
    rw [hcount, ← List.count_eq_zero]
    omega
  have hfull : ∀ e, w.Holds e → tokenOf e = token → ((∃ stop, e.terminalEnd = some stop ∧ e.ranges = [(0, stop)])
      ↔ ∃ stop, e.terminalEnd = some stop ∧ ∀ x, w.Covered token x ↔ x < stop) := by
    rintro e he rfl
    have hok := h.entries _ e he
    refine exists_congr fun stop => and_congr_right fun hend => ?_
    simp only [← hok.covers]
    refine ⟨fun hranges x => ?_, fun hcovers => hok.normal.eq_singleton ?_ hcovers⟩
    · rw [hranges]
      simp [Covers]
    · obtain ⟨f, hf, -, hstop⟩ := (hok.terminal stop).1 hend
      have := (hok.proper f hf).1
      omega
  refine ⟨fun hreport => ?_, ?_⟩
  · cases hsettled : w.tracker.settled token with
    | none =>
      simp only [commitAdmission, hsettled] at hreport
      exact absurd hreport (by decide)
    | some e =>
      obtain ⟨hmem, rfl⟩ := h.tokenOf_settled hheld hsettled
      have hok := h.entries _ e hmem
      obtain ⟨hpending, hfailed, hcover⟩ := (commitAdmission_of_settled hsettled hok.normal).1 hreport
      refine ⟨e, hmem, rfl, (hfull e hmem rfl).1 hcover, (hone e hmem rfl).1 hpending, ?_⟩
      rw [← hok.failed, hfailed]
      decide
  · rintro ⟨e, he, rfl, hcover, hopen, hfailed⟩
    have hok := h.entries _ e he
    rw [commitAdmission_of_settled (h.settled_of_mem hheld he rfl) hok.normal]
    refine ⟨(hone e he rfl).2 hopen, ?_, (hfull e he rfl).2 hcover⟩
    rw [← hok.failed] at hfailed
    exact Bool.eq_false_of_not_eq_true hfailed

/-- What is recorded under a token after a step: what was, or one fragment more that the
token's entry took. -/
theorem recordedOf_step {w : World} (h : Inv w) (op : Op) (token : OverlapAdmissionToken) :
    (w.step op).recordedOf token = w.recordedOf token
      ∨ (∃ f, w.recordedOf token = [] ∧ (w.step op).recordedOf token = [f])
      ∨ ∃ e f ranges, w.Holds e ∧ tokenOf e = token ∧ f.start < f.stop ∧ Takes e f ranges
        ∧ (w.step op).recordedOf token = w.recordedOf token ++ [f] := by
  have hrecorded : ∀ {w' : World}, w'.recorded = w.recorded → w'.recordedOf token = w.recordedOf token := by
    intro w' heq
    unfold World.recordedOf
    rw [heq]
  cases op with
  | check key start stop isLast now => exact .inl rfl
  | record key start stop isLast now =>
    have hend : WorldEnd w key ⟨start.toNat, stop.toNat, isLast⟩ now.toNat
        (w.step (.record key start stop isLast now)) := world_end ..
    generalize w.step (.record key start stop isLast now) = w' at hend ⊢
    cases hend with
    | kept _ => exact .inl rfl
    | rejected _ _ _ => exact .inl rfl
    | full _ _ _ => exact .inl rfl
    | extended e ranges hproper hfind htakes =>
      by_cases htoken : token = tokenOf e
      · subst htoken
        refine .inr (.inr ⟨e, _, ranges, ?_, rfl, hproper, htakes, recordedOf_noted_self⟩)
        obtain ⟨hmem, hsame⟩ := mem_of_find hfind
        change e ∈ w.tracker.shards (w.tracker.shardIndex e.key)
        rw [shardIndex_congr _ hsame]
        exact (swept_sublist ..).subset hmem
      · exact .inl (recordedOf_noted_ne htoken)
    | created room hproper hfind hroom =>
      by_cases htoken : token = ⟨key, w.tracker.nextRevision⟩
      · subst htoken
        refine .inr (.inl ⟨⟨start.toNat, stop.toNat, isLast⟩, h.recordedOf_next key, ?_⟩)
        rw [recordedOf_noted_self, h.recordedOf_next key]
        rfl
      · exact .inl (recordedOf_noted_ne htoken)
  | commit n =>
    refine .inl (hrecorded ?_)
    change (w.commit n).recorded = _
    cases htaken : w.held[n]? with
    | none => rw [commit_none htaken]
    | some token => exact (settles_commit h htaken).recorded
  | fail n =>
    refine .inl (hrecorded ?_)
    change (w.fail n).recorded = _
    cases htaken : w.held[n]? with
    | none => rw [fail_none htaken]
    | some token => exact (settles_fail h htaken).recorded

/-- The fragments recorded under a token stay disjoint, its entry being there or gone. -/
theorem disjoint_step {w : World} (h : Inv w)
    (hdisjoint : ∀ token, (w.recordedOf token).Pairwise fun f g => f.stop ≤ g.start ∨ g.stop ≤ f.start) (op : Op) :
    ∀ token, ((w.step op).recordedOf token).Pairwise fun f g => f.stop ≤ g.start ∨ g.stop ≤ f.start := by
  intro token
  rcases recordedOf_step h op token with heq | ⟨f, -, heq⟩ | ⟨e, f, ranges, he, rfl, hproper, htakes, heq⟩
  · rw [heq]
    exact hdisjoint token
  · rw [heq]
    exact List.pairwise_singleton _ _
  · rw [heq]
    refine List.pairwise_append.2 ⟨hdisjoint _, List.pairwise_singleton _ _, fun g hg f' hf' => ?_⟩
    rw [List.mem_singleton.1 hf']
    exact disjoint_of_takes (h.entries _ e he) hproper htakes g hg

theorem disjoint_after (seed : UInt64) (ops : List Op) (token : OverlapAdmissionToken) :
    (((World.init seed).after ops).recordedOf token).Pairwise fun f g => f.stop ≤ g.start ∨ g.stop ≤ f.start := by
  suffices h : Inv ((World.init seed).after ops) ∧ ∀ token, (((World.init seed).after ops).recordedOf token).Pairwise
      fun f g => f.stop ≤ g.start ∨ g.stop ≤ f.start from h.2 token
  refine run_invariant (P := fun w : World => Inv w
    ∧ ∀ token, (w.recordedOf token).Pairwise fun f g => f.stop ≤ g.start ∨ g.stop ≤ f.start) ?_ ?_ ops
  · exact ⟨inv_init seed, fun _ => List.Pairwise.nil⟩
  · exact fun _ op h => ⟨inv_step h.1 op, disjoint_step h.1 h.2 op⟩

theorem completed_step {w : World} (h : Inv w) (op : Op) {token : OverlapAdmissionToken}
    (hdone : token ∈ w.completed) : token ∈ (w.step op).completed := by
  cases op with
  | check key start stop isLast now => exact hdone
  | record key start stop isLast now =>
    have hend : WorldEnd w key ⟨start.toNat, stop.toNat, isLast⟩ now.toNat
        (w.step (.record key start stop isLast now)) := world_end ..
    generalize w.step (.record key start stop isLast now) = w' at hend ⊢
    cases hend <;> exact hdone
  | commit n =>
    change token ∈ (w.commit n).completed
    cases htaken : w.held[n]? with
    | none => rwa [commit_none htaken]
    | some t => exact (settles_commit h htaken).stillCompleted token hdone
  | fail n =>
    change token ∈ (w.fail n).completed
    cases htaken : w.held[n]? with
    | none => rwa [fail_none htaken]
    | some t => exact (settles_fail h htaken).stillCompleted token hdone

/-- Once a commit has reported completion, nothing more is recorded under the token. -/
theorem recordedOf_completed_step {w : World} (h : Inv w) (op : Op) {token : OverlapAdmissionToken}
    (hdone : token ∈ w.completed) : (w.step op).recordedOf token = w.recordedOf token := by
  rcases recordedOf_step h op token with heq | ⟨f, hnone, -⟩ | ⟨e, f, ranges, he, rfl, hproper, htakes, -⟩
  · exact heq
  · exact absurd hnone (h.completed token hdone)
  · obtain ⟨n, hterminal, hranges⟩ := (h.entries _ e he).completed hdone
    exact absurd htakes (not_takes_of_complete hproper hterminal hranges)

theorem recordedOf_completed {w : World} (h : Inv w) {token : OverlapAdmissionToken} (hdone : token ∈ w.completed)
    (ops : List Op) : (w.after ops).recordedOf token = w.recordedOf token := by
  suffices hrun : Inv (w.after ops) ∧ token ∈ (w.after ops).completed
      ∧ (w.after ops).recordedOf token = w.recordedOf token from hrun.2.2
  refine run_invariant (P := fun w' : World => Inv w' ∧ token ∈ w'.completed
    ∧ w'.recordedOf token = w.recordedOf token) ⟨h, hdone, rfl⟩ ?_ ops
  intro w' op ⟨hinv, hstill, heq⟩
  exact ⟨inv_step hinv op, completed_step hinv op hstill, (recordedOf_completed_step hinv op hstill).trans heq⟩

end Xpf.FragmentOverlap
