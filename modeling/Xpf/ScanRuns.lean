/-
What the scan trackers report, over whole runs.

`view` is what the tracker knows of a source: when its window opened and which destinations are
recorded. Each operation is described once by what it does to the views (`check_cases`,
`cleanup_cases`), with the bookkeeping and the cap kept. A report is then traced back to the
checks that were recorded, and in a zone that never needs an eviction the views are compared
with the windows that the checks themselves define (`openWindow`).
-/
import Mathlib.Data.List.Induction
import Xpf.Runs
import Xpf.ScanTracker

set_option autoImplicit false

namespace Xpf.ScanTracker

open Xpf.Tables (Table upsert lookup_upsert)
open Xpf.SlotRing
open Xpf.Sessions (IpAddr)
open Xpf.GenGuard (Iteration)

variable {T : Type} [DecidableEq T]

namespace ScanCore

/-! ## Bookkeeping -/

/-- What the tracker knows of a source. -/
def view (core : ScanCore T) (key : ScanKey) : Option (ℕ × List T) :=
  (core.perSrc.lookup key).map fun e => (e.windowStart, e.entries)

/-- The table, the ring and the index hold the same keys, and the positions are right. -/
structure Consistent (core : ScanCore T) : Prop where
  ring : Exact slotOf core.perSrc core.keyRing
  zones : ∀ zone src, src ∈ core.zoneSrcs zone ↔ ⟨zone, src⟩ ∈ core.perSrc

theorem view_eq_none_iff {core : ScanCore T} {key : ScanKey} : core.view key = none ↔ key ∉ core.perSrc := by
  rw [view, Option.map_eq_none_iff, AList.lookup_eq_none]

theorem view_isSome_iff {core : ScanCore T} {key : ScanKey} : (core.perSrc.lookup key).isSome ↔ core.view key ≠ none := by
  rw [ne_eq, view_eq_none_iff, not_not, AList.lookup_isSome]

theorem consistent_withSeed (seed : UInt64) : (withSeed seed : ScanCore T).Consistent where
  ring := exact_empty
  zones := fun _ _ => ⟨fun h => (List.not_mem_nil h).elim, fun h => (List.not_mem_nil h).elim⟩

/-- A source that enters is added to its zone and to no other. -/
theorem zoneSrcs_insertSrc (core : ScanCore T) (key : ScanKey) (now : ℕ) (zone : UInt32) :
    (core.insertSrc key now).zoneSrcs zone
      = if zone = key.zone then (core.zoneSrcs zone).insert key.src () else core.zoneSrcs zone := by
  simp only [insertSrc, zoneSrcs, lookup_upsert]
  split
  · next h => rw [h]; rfl
  · rfl

theorem view_insertSrc (core : ScanCore T) (key : ScanKey) (now : ℕ) (k : ScanKey) :
    (core.insertSrc key now).view k = if k = key then some (now, []) else core.view k := by
  simp only [insertSrc, view, insertRow]
  rcases eq_or_ne k key with rfl | hne
  · rw [AList.lookup_insert, if_pos rfl]
    rfl
  · rw [AList.lookup_insert_ne hne, if_neg hne]

theorem Consistent.insertSrc {core : ScanCore T} (h : core.Consistent) {key : ScanKey} (hnew : key ∉ core.perSrc)
    (now : ℕ) :
    (core.insertSrc key now).Consistent
      ∧ ∀ zone, (core.insertSrc key now).zoneCount zone
        = if zone = key.zone then core.zoneCount zone + 1 else core.zoneCount zone := by
  have hnotIn : key.src ∉ core.zoneSrcs key.zone := fun hin => hnew ((h.zones _ _).mp hin)
  refine ⟨⟨h.ring.insertRow hnew _, fun zone src => ?_⟩, fun zone => ?_⟩
  · have hmem : (⟨zone, src⟩ : ScanKey) ∈ (core.insertSrc key now).perSrc
        ↔ ⟨zone, src⟩ = key ∨ (⟨zone, src⟩ : ScanKey) ∈ core.perSrc := AList.mem_insert _
    rw [zoneSrcs_insertSrc, hmem, ← h.zones]
    by_cases hzone : zone = key.zone
    · subst hzone
      rw [if_pos rfl, AList.mem_insert]
      refine or_congr_left ⟨fun heq => heq ▸ rfl, fun heq => ?_⟩
      rw [← heq]
    · rw [if_neg hzone]
      refine ⟨.inr, fun hor => hor.resolve_left fun heq => hzone ?_⟩
      rw [← heq]
  · rw [zoneCount, zoneSrcs_insertSrc]
    split
    · next hzone =>
      subst hzone
      rw [AList.keys_insert, List.length_cons, List.erase_of_not_mem fun hin => hnotIn (AList.mem_keys.mpr hin)]
      rfl
    · rfl

theorem removeSrc_absent {core : ScanCore T} {key : ScanKey} (h : key ∉ core.perSrc) :
    core.removeSrc key = (core, false) := by
  have hnone : core.perSrc.lookup key = none := AList.lookup_eq_none.mpr h
  simp only [removeSrc, removeRow, hnone]

/-- A source that leaves takes its key out of all three structures. -/
theorem Consistent.removeSrc {core : ScanCore T} (h : core.Consistent) {key : ScanKey} (hkey : key ∈ core.perSrc) :
    (core.removeSrc key).2 = true ∧ (core.removeSrc key).1.Consistent
      ∧ (∀ k, (core.removeSrc key).1.view k = if k = key then none else core.view k)
      ∧ ∀ zone, (core.removeSrc key).1.zoneCount zone
        = if zone = key.zone then core.zoneCount zone - 1 else core.zoneCount zone := by
  obtain ⟨e, he⟩ := Option.isSome_iff_exists.mp (AList.lookup_isSome.mpr hkey)
  obtain ⟨perSrc, keyRing, heq, hring, hview⟩ := h.ring.removeRow he
    (fun e : SrcEntry T => (e.windowStart, e.entries)) fun _ _ => rfl
  have hsrcIn : key.src ∈ core.zoneSrcs key.zone := (h.zones _ _).mpr hkey
  obtain ⟨srcs, hsrcs⟩ : ∃ srcs, core.perZoneSrcs.lookup key.zone = some srcs := by
    cases hlookup : core.perZoneSrcs.lookup key.zone with
    | none =>
      rw [zoneSrcs, hlookup] at hsrcIn
      exact (List.not_mem_nil hsrcIn).elim
    | some srcs => exact ⟨srcs, rfl⟩
  have hremove : core.removeSrc key
      = ({ core with perSrc, keyRing, perZoneSrcs := core.perZoneSrcs.insert key.zone (srcs.erase key.src) }, true) := by
    simp only [ScanCore.removeSrc, heq, hsrcs]
  have hzoneSrcs : ∀ zone, (core.removeSrc key).1.zoneSrcs zone
      = if zone = key.zone then (core.zoneSrcs zone).erase key.src else core.zoneSrcs zone := by
    intro zone
    rw [hremove]
    simp only [zoneSrcs]
    rcases eq_or_ne zone key.zone with rfl | hne
    · rw [AList.lookup_insert, if_pos rfl, hsrcs]
      rfl
    · rw [AList.lookup_insert_ne hne, if_neg hne]
  have hviews : ∀ k, (core.removeSrc key).1.view k = if k = key then none else core.view k := by
    intro k
    rw [hremove]
    exact hview k
  refine ⟨by rw [hremove], ⟨by rw [hremove]; exact hring, fun zone src => ?_⟩, hviews, fun zone => ?_⟩
  · have hmem : (⟨zone, src⟩ : ScanKey) ∈ (core.removeSrc key).1.perSrc
        ↔ (⟨zone, src⟩ : ScanKey) ≠ key ∧ (⟨zone, src⟩ : ScanKey) ∈ core.perSrc := by
      rw [← not_iff_not, ← view_eq_none_iff, hviews]
      split
      · next heq => exact ⟨fun _ hand => hand.1 heq, fun _ => rfl⟩
      · next hne =>
        rw [view_eq_none_iff, not_and]
        exact ⟨fun hnot _ => hnot, fun hnot => hnot hne⟩
    rw [hzoneSrcs, hmem, ← h.zones]
    by_cases hzone : zone = key.zone
    · subst hzone
      rw [if_pos rfl, AList.mem_erase]
      refine and_congr_left fun _ => not_congr ⟨fun heq => heq ▸ rfl, fun heq => ?_⟩
      rw [← heq]
    · rw [if_neg hzone]
      refine ⟨fun hin => ⟨fun heq => hzone ?_, hin⟩, fun hand => hand.2⟩
      rw [← heq]
  · rw [zoneCount, hzoneSrcs]
    split
    · next hzone =>
      subst hzone
      rw [AList.keys_erase, List.length_erase_of_mem (AList.mem_keys.mp hsrcIn)]
      rfl
    · rfl

/-! ## Operations, by what they do to the views -/

/-- The window and the destinations after a check, for a source that was known or not. -/
def observe (window now : ℕ) (val : T) : Option (ℕ × List T) → ℕ × List T
  | none => (now, [val])
  | some (start, dests) =>
    if window ≤ now - start then (now, [val])
    else if val ∈ dests ∨ scanDetectCount ≤ dests.length then (start, dests)
    else (start, dests ++ [val])

/-- Only cursors and counters differ. -/
structure SameTable (core core' : ScanCore T) : Prop where
  src : core'.perSrc = core.perSrc
  ring : core'.keyRing = core.keyRing
  zones : core'.perZoneSrcs = core.perZoneSrcs

theorem SameTable.consistent {core core' : ScanCore T} (h : SameTable core core') (hc : core.Consistent) :
    core'.Consistent := by
  refine ⟨by rw [h.src, h.ring]; exact hc.ring, fun zone src => ?_⟩
  rw [zoneSrcs, h.zones, h.src]
  exact hc.zones zone src

theorem SameTable.view {core core' : ScanCore T} (h : SameTable core core') (key : ScanKey) :
    core'.view key = core.view key := by rw [ScanCore.view, h.src, ScanCore.view]

theorem SameTable.zoneCount {core core' : ScanCore T} (h : SameTable core core') (zone : UInt32) :
    core'.zoneCount zone = core.zoneCount zone := by rw [ScanCore.zoneCount, zoneSrcs, h.zones]; rfl

/-- The ends of an eviction: nothing but a cursor changes, or a source of the zone goes. -/
inductive Evicted (core : ScanCore T) (zone : UInt32) : ScanCore T × Bool → Prop
  | failed (core' : ScanCore T) (same : SameTable core core') : Evicted core zone (core', false)
  | removed (core' : ScanCore T) (src : IpAddr) (tracked : core.view ⟨zone, src⟩ ≠ none) (consistent : core'.Consistent)
      (view : ∀ k, core'.view k = if k = ⟨zone, src⟩ then none else core.view k)
      (count : ∀ z, core'.zoneCount z = if z = zone then core.zoneCount z - 1 else core.zoneCount z) :
      Evicted core zone (core', true)

theorem removeVictim_evicted {core core' : ScanCore T} (hc : core.Consistent) (hsame : SameTable core core')
    (zone : UInt32) (victim : Option IpAddr) : Evicted core zone (core'.removeVictim zone victim) := by
  have hc' := hsame.consistent hc
  cases victim with
  | none => exact .failed _ hsame
  | some src =>
    rw [removeVictim]
    by_cases hin : (⟨zone, src⟩ : ScanKey) ∈ core'.perSrc
    · obtain ⟨htrue, hconsistent, hview, hcount⟩ := hc'.removeSrc hin
      generalize core'.removeSrc ⟨zone, src⟩ = removed at htrue hconsistent hview hcount
      obtain ⟨core'', ok⟩ := removed
      dsimp only at htrue hconsistent hview hcount
      subst htrue
      have hafter : SameTable core'' { core'' with evictedPressure := core''.evictedPressure + 1 } := ⟨rfl, rfl, rfl⟩
      refine .removed _ src ?_ (hafter.consistent hconsistent) (fun k => ?_) fun z => ?_
      · rw [← hsame.view, ne_eq, view_eq_none_iff, not_not]
        exact hin
      · rw [hafter.view, hview, hsame.view]
      · rw [hafter.zoneCount, hcount, hsame.zoneCount]
    · rw [removeSrc_absent hin]
      exact .failed _ hsame

theorem evictStalestInZone_evicted {core : ScanCore T} (hc : core.Consistent) (it : Iteration IpAddr) (zone : UInt32)
    (now window : ℕ) : Evicted core zone (core.evictStalestInZone it zone now window) := by
  rw [evictStalestInZone]
  split
  · exact .failed _ ⟨rfl, rfl, rfl⟩
  · dsimp only
    apply removeVictim_evicted hc
    exact ⟨rfl, rfl, rfl⟩

/-- Recording a destination of a tracked source. -/
theorem record_spec {core : ScanCore T} (hc : core.Consistent) {key : ScanKey} {start : ℕ} {dests : List T}
    (hview : core.view key = some (start, dests)) (val : T) (now window : ℕ) :
    (core.record key val now window).1.Consistent
      ∧ (∀ z, (core.record key val now window).1.zoneCount z = core.zoneCount z)
      ∧ (∀ k, (core.record key val now window).1.view k
        = if k = key then some (observe window now val (some (start, dests))) else core.view k)
      ∧ (core.record key val now window).2
        = decide (scanDetectCount ≤ (observe window now val (some (start, dests))).2.length) := by
  obtain ⟨e, he, hcontent⟩ := Option.map_eq_some_iff.mp hview
  rw [Prod.mk.injEq] at hcontent
  -- the entry that is stored keeps its position
  have hstored : ∃ e' pressure, core.record key val now window
      = ({ core with perSrc := core.perSrc.insert key e', skippedPressure := pressure },
        decide (scanDetectCount ≤ e'.entries.length))
      ∧ e'.slot = e.slot ∧ (e'.windowStart, e'.entries) = observe window now val (some (start, dests)) := by
    simp only [record, he]
    refine ⟨_, _, rfl, ?_, ?_⟩
    · simp only [SrcEntry.insertUnique, SrcEntry.resetEntries]
      split_ifs <;> rfl
    · rw [← hcontent.1, ← hcontent.2]
      simp only [SrcEntry.insertUnique, SrcEntry.resetEntries, SrcEntry.distinctCount, observe]
      by_cases hover : window ≤ now - e.windowStart
      · simp [hover, scanDetectCount]
      · simp only [if_neg hover]
        by_cases hmem : val ∈ e.entries
        · simp [hmem]
        · by_cases hfull : scanDetectCount ≤ e.entries.length
          · simp [hmem, hfull]
          · simp [hmem, hfull]
  obtain ⟨e', pressure, hrecord, hslot, hobserve⟩ := hstored
  rw [hrecord, ← hobserve]
  refine ⟨⟨hc.ring.update he hslot, fun zone src => ?_⟩, fun _ => rfl, fun k => ?_, rfl⟩
  · have hkey : key ∈ core.perSrc := AList.lookup_isSome.mp (by rw [he]; rfl)
    dsimp only
    rw [AList.mem_insert]
    refine (hc.zones zone src).trans ⟨.inr, fun hor => hor.elim (fun heq => heq ▸ hkey) id⟩
  · rw [view]
    dsimp only
    rcases eq_or_ne k key with rfl | hne
    · rw [AList.lookup_insert, if_pos rfl]
      rfl
    · rw [AList.lookup_insert_ne hne, if_neg hne]
      rfl

theorem observe_new {window : ℕ} (hwindow : 0 < window) (now : ℕ) (val : T) :
    observe window now val (some (now, [])) = observe window now val none := by
  simp [observe, Nat.not_le.mpr hwindow, scanDetectCount]

/-- No zone is above its cap. -/
def Capped (core : ScanCore T) : Prop := ∀ zone, core.zoneCount zone ≤ maxSourcesPerZone

/-- The ends of a check. A source that is not tracked is skipped if its zone is full and nothing
could be evicted. Otherwise it is recorded, and at most a source of a full zone is gone. -/
inductive Checked (core : ScanCore T) (key : ScanKey) (val : T) (now window : ℕ) : ScanCore T × Bool → Prop
  | skipped (core' : ScanCore T) (full : maxSourcesPerZone ≤ core.zoneCount key.zone) (absent : core.view key = none)
      (same : SameTable core core') : Checked core key val now window (core', false)
  | recorded (core' : ScanCore T) (consistent : core'.Consistent) (capped : core'.Capped)
      (view : core'.view key = some (observe window now val (core.view key)))
      (others : ∀ k, k ≠ key → core'.view k = core.view k
        ∨ (k.zone = key.zone ∧ core'.view k = none ∧ core.view key = none
          ∧ maxSourcesPerZone ≤ core.zoneCount key.zone)) :
      Checked core key val now window
        (core', decide (scanDetectCount ≤ (observe window now val (core.view key)).2.length))

/-- A source that enters a zone with room is recorded. -/
theorem insert_record {core : ScanCore T} (hc : core.Consistent) (hcap : core.Capped) {key : ScanKey}
    (habsent : core.view key = none) (hroom : core.zoneCount key.zone < maxSourcesPerZone) (val : T) (now : ℕ)
    {window : ℕ} (hwindow : 0 < window) :
    ((core.insertSrc key now).record key val now window).1.Consistent
      ∧ ((core.insertSrc key now).record key val now window).1.Capped
      ∧ (∀ k, ((core.insertSrc key now).record key val now window).1.view k
        = if k = key then some (observe window now val none) else core.view k)
      ∧ ((core.insertSrc key now).record key val now window).2
        = decide (scanDetectCount ≤ (observe window now val none).2.length) := by
  obtain ⟨hinserted, hcount⟩ := hc.insertSrc (view_eq_none_iff.mp habsent) now
  have hview : (core.insertSrc key now).view key = some (now, []) := by rw [view_insertSrc, if_pos rfl]
  obtain ⟨hconsistent, hcount', hviews, hresult⟩ := record_spec hinserted hview val now window
  rw [observe_new hwindow] at hviews hresult
  refine ⟨hconsistent, fun zone => ?_, fun k => ?_, hresult⟩
  · rw [hcount', hcount]
    split
    · next hzone =>
      subst hzone
      omega
    · exact hcap zone
  · rw [hviews]
    split
    · rfl
    · next hne => rw [view_insertSrc, if_neg hne]

theorem check_checked {core : ScanCore T} (hc : core.Consistent) (hcap : core.Capped) (it : Iteration IpAddr)
    (key : ScanKey) (val : T) (now : ℕ) {window : ℕ} (hwindow : 0 < window) :
    Checked core key val now window (core.check it key.zone key.src val now window) := by
  rw [check, if_neg (Nat.ne_of_gt hwindow)]
  dsimp only
  by_cases hsome : (core.perSrc.lookup key).isSome
  · rw [if_pos hsome]
    obtain ⟨⟨start, dests⟩, hview⟩ := Option.ne_none_iff_exists'.mp (view_isSome_iff.mp hsome)
    obtain ⟨hconsistent, hcount, hviews, hresult⟩ := record_spec hc hview val now window
    generalize core.record key val now window = r at hconsistent hcount hviews hresult
    obtain ⟨core', verdict⟩ := r
    dsimp only at hconsistent hcount hviews hresult
    subst hresult
    rw [← hview]
    refine .recorded core' hconsistent (fun zone => hcount zone ▸ hcap zone) ?_ fun k hne => .inl ?_
    · rw [hviews, if_pos rfl, hview]
    · rw [hviews, if_neg hne]
  · rw [if_neg hsome]
    have habsent : core.view key = none := not_not.mp fun hne => hsome (view_isSome_iff.mpr hne)
    by_cases hfull : maxSourcesPerZone ≤ core.zoneCount key.zone
    · rw [if_pos hfull]
      have hevicted := evictStalestInZone_evicted hc it key.zone now window
      generalize core.evictStalestInZone it key.zone now window = evicted at hevicted
      cases hevicted with
      | failed core' same => exact .skipped _ hfull habsent ⟨same.src, same.ring, same.zones⟩
      | removed core' src tracked consistent view count =>
        have hne : (⟨key.zone, src⟩ : ScanKey) ≠ key := fun heq => tracked (heq ▸ habsent)
        have habsent' : core'.view key = none := by rw [view, if_neg (Ne.symm hne), habsent]
        have hcapZone := hcap key.zone
        have hroom : core'.zoneCount key.zone < maxSourcesPerZone := by
          rw [count, if_pos rfl, maxSourcesPerZone]
          rw [maxSourcesPerZone] at hcapZone
          omega
        have hcap' : core'.Capped := fun zone => by
          have hzone := hcap zone
          rw [count]
          split <;> omega
        obtain ⟨hconsistent, hcapped, hviews, hresult⟩ := insert_record consistent hcap' habsent' hroom val now hwindow
        dsimp only
        generalize (core'.insertSrc key now).record key val now window = r at hconsistent hcapped hviews hresult
        obtain ⟨core'', verdict⟩ := r
        dsimp only at hconsistent hcapped hviews hresult
        subst hresult
        rw [← habsent]
        refine .recorded core'' hconsistent hcapped ?_ fun k hnek => ?_
        · rw [hviews, if_pos rfl, habsent]
        · rw [hviews, if_neg hnek, view]
          split
          · next heq => exact .inr ⟨heq ▸ rfl, rfl, habsent, hfull⟩
          · exact .inl rfl
    · rw [if_neg hfull]
      obtain ⟨hconsistent, hcapped, hviews, hresult⟩ :=
        insert_record hc hcap habsent (Nat.lt_of_not_le hfull) val now hwindow
      generalize (core.insertSrc key now).record key val now window = r at hconsistent hcapped hviews hresult
      obtain ⟨core', verdict⟩ := r
      dsimp only at hconsistent hcapped hviews hresult
      subst hresult
      rw [← habsent]
      refine .recorded core' hconsistent hcapped ?_ fun k hne => .inl ?_
      · rw [hviews, if_pos rfl, habsent]
      · rw [hviews, if_neg hne]

/-- What a cleanup leaves: each source as it was, or gone because its window was over under the
floor or nothing was recorded of it. -/
structure Cleaned (core : ScanCore T) (now floor : ℕ) (core' : ScanCore T) : Prop where
  consistent : core'.Consistent
  count : ∀ zone, core'.zoneCount zone ≤ core.zoneCount zone
  view : ∀ k, core'.view k = core.view k
    ∨ (core'.view k = none ∧ ∃ start dests, core.view k = some (start, dests) ∧ (floor ≤ now - start ∨ dests = []))

theorem Cleaned.trans {core core' core'' : ScanCore T} {now floor : ℕ} (h : Cleaned core now floor core')
    (h' : Cleaned core' now floor core'') : Cleaned core now floor core'' := by
  refine ⟨h'.consistent, fun zone => Nat.le_trans (h'.count zone) (h.count zone), fun k => ?_⟩
  rcases h'.view k with heq | ⟨hnone, hgone⟩
  · rw [heq]
    exact h.view k
  · rcases h.view k with heq | ⟨hnone', hgone'⟩
    · rw [heq] at hgone
      exact .inr ⟨hnone, hgone⟩
    · exact .inr ⟨hnone, hgone'⟩

theorem cleaned_refl {core core' : ScanCore T} (hc : core.Consistent) (h : SameTable core core') (now floor : ℕ) :
    Cleaned core now floor core' :=
  ⟨h.consistent hc, fun zone => Nat.le_of_eq (h.zoneCount zone), fun k => .inl (h.view k)⟩

theorem cleanupLoop_cleaned (now floor : ℕ) (n : ℕ) (core : ScanCore T) (hc : core.Consistent) (i examined : ℕ) :
    Cleaned core now floor (cleanupLoop now floor n core i examined).1 := by
  have hsame : SameTable core core := ⟨rfl, rfl, rfl⟩
  induction n generalizing core i examined with
  | zero => exact cleaned_refl hc hsame now floor
  | succ n ih =>
    rw [cleanupLoop]
    dsimp only
    split
    · exact cleaned_refl hc hsame now floor
    · split
      · exact cleaned_refl hc hsame now floor
      · next key hget =>
        have hkey : key ∈ core.perSrc := (hc.ring.mem_iff key).mp (List.mem_of_getElem? hget)
        obtain ⟨e, he⟩ := Option.isSome_iff_exists.mp (AList.lookup_isSome.mpr hkey)
        rw [he]
        dsimp only
        split
        · next hexpired =>
          obtain ⟨-, hconsistent, hview, hcount⟩ := hc.removeSrc hkey
          refine Cleaned.trans ⟨hconsistent, fun zone => ?_, fun k => ?_⟩ (ih _ hconsistent _ _ ⟨rfl, rfl, rfl⟩)
          · rw [hcount]
            split <;> omega
          · rw [hview]
            split
            · next heq =>
              subst heq
              refine .inr ⟨rfl, e.windowStart, e.entries, by rw [ScanCore.view, he]; rfl, ?_⟩
              rw [SrcEntry.expired, Bool.or_eq_true, decide_eq_true_eq, SrcEntry.isEmpty, decide_eq_true_eq] at hexpired
              exact hexpired.imp id List.length_eq_zero_iff.mp
            · exact .inl rfl
        · exact ih core hc _ _ hsame

theorem cleanup_cleaned {core : ScanCore T} (hc : core.Consistent) (now reapFloor : ℕ) :
    Cleaned core now (min reapFloor maxCleanupWindowMicros) (core.cleanup now reapFloor).1 := by
  rw [cleanup]
  split
  · apply cleaned_refl hc
    exact ⟨rfl, rfl, rfl⟩
  · have hloop := cleanupLoop_cleaned now (min reapFloor maxCleanupWindowMicros)
      (min cleanupBudget core.keyRing.length) core hc
      (if core.keyRing.length ≤ core.cleanupCursor then 0 else core.cleanupCursor) 0
    refine hloop.trans (cleaned_refl hloop.consistent ?_ _ _)
    exact ⟨rfl, rfl, rfl⟩

end ScanCore

/-! ## Runs -/

/-- What happens to a tracker: a check of a destination, or a cleanup with its floor. -/
inductive Event (T : Type)
  | check (zone : UInt32) (src : IpAddr) (val : T) (now : ℕ) (it : Iteration IpAddr)
  | cleanup (now reapFloor : ℕ)

namespace Event

def time : Event T → ℕ
  | .check _ _ _ now _ => now
  | .cleanup now _ => now

/-- A cleanup has a floor no lower than the windows of the zones. -/
def Respects (window : UInt32 → ℕ) : Event T → Prop
  | .check _ _ _ _ _ => True
  | .cleanup _ reapFloor => ∀ zone, window zone ≤ reapFloor

end Event

/-- The tracker after an event, with one window for each zone. -/
def step (window : UInt32 → ℕ) (core : ScanCore T) : Event T → ScanCore T
  | .check zone src val now it => (core.check it zone src val now (window zone)).1
  | .cleanup now reapFloor => (core.cleanup now reapFloor).1

/-- The tracker after a run. -/
def runOf (window : UInt32 → ℕ) (seed : UInt64) (events : List (Event T)) : ScanCore T :=
  Runs.run (step window) (ScanCore.withSeed seed) events

/-- The windows of the zones: positive and no longer than a threshold can say. -/
structure Windows (window : UInt32 → ℕ) : Prop where
  positive : ∀ zone, 0 < window zone
  bounded : ∀ zone, window zone ≤ maxCleanupWindowMicros

/-- The source was checked with the destination at the time. -/
def WasChecked (events : List (Event T)) (key : ScanKey) (val : T) (now : ℕ) : Prop :=
  ∃ it, Event.check key.zone key.src val now it ∈ events

/-- The bookkeeping, the cap, and a destination for every source. -/
structure Sound (core : ScanCore T) : Prop where
  consistent : core.Consistent
  capped : core.Capped
  nonempty : ∀ key start dests, core.view key = some (start, dests) → dests ≠ []

theorem observe_nonempty (window now : ℕ) (val : T) {known : Option (ℕ × List T)}
    (h : ∀ start dests, known = some (start, dests) → dests ≠ []) : (ScanCore.observe window now val known).2 ≠ [] := by
  cases known with
  | none => exact List.cons_ne_nil _ _
  | some known =>
    obtain ⟨start, dests⟩ := known
    rw [ScanCore.observe]
    split_ifs
    · exact List.cons_ne_nil _ _
    · exact h start dests rfl
    · simp

theorem Sound.step {window : UInt32 → ℕ} (hw : Windows window) {core : ScanCore T} (h : Sound core) (e : Event T) :
    Sound (step window core e) := by
  cases e with
  | check zone src val now it =>
    have hchecked := ScanCore.check_checked h.consistent h.capped it ⟨zone, src⟩ val now (hw.positive zone)
    rw [ScanTracker.step]
    dsimp only at hchecked
    generalize core.check it zone src val now (window zone) = r at hchecked ⊢
    cases hchecked with
    | skipped core' full absent same =>
      refine ⟨same.consistent h.consistent, fun z => same.zoneCount z ▸ h.capped z, fun key start dests hview => ?_⟩
      rw [same.view] at hview
      exact h.nonempty key start dests hview
    | recorded core' consistent capped view others =>
      refine ⟨consistent, capped, fun key start dests hview => ?_⟩
      rcases eq_or_ne key ⟨zone, src⟩ with rfl | hne
      · rw [view, Option.some.injEq] at hview
        have hnonempty := observe_nonempty (window zone) now val (h.nonempty ⟨zone, src⟩)
        rw [hview] at hnonempty
        exact hnonempty
      · rcases others key hne with heq | ⟨-, hnone, -⟩
        · rw [heq] at hview
          exact h.nonempty key start dests hview
        · rw [hnone] at hview
          cases hview
  | cleanup now reapFloor =>
    have hcleaned := ScanCore.cleanup_cleaned h.consistent now reapFloor
    refine ⟨hcleaned.consistent, fun zone => Nat.le_trans (hcleaned.count zone) (h.capped zone),
      fun key start dests hview => ?_⟩
    rw [ScanTracker.step] at hview
    rcases hcleaned.view key with heq | ⟨hnone, -⟩
    · rw [heq] at hview
      exact h.nonempty key start dests hview
    · rw [hnone] at hview
      cases hview

theorem sound_runOf {window : UInt32 → ℕ} (hw : Windows window) (seed : UInt64) (events : List (Event T)) :
    Sound (runOf window seed events) := by
  refine Runs.run_invariant ⟨ScanCore.consistent_withSeed seed, fun _ => Nat.zero_le _, ?_⟩
    (fun core e h => h.step hw e) events
  intro key start dests hview
  cases hview

theorem runOf_snoc (window : UInt32 → ℕ) (seed : UInt64) (events : List (Event T)) (e : Event T) :
    runOf window seed (events ++ [e]) = step window (runOf window seed events) e := Runs.run_snoc _ _

/-- The clock does not go back. -/
def Ordered (events : List (Event T)) : Prop := events.Pairwise fun a b => a.time ≤ b.time

theorem Ordered.le_last {events : List (Event T)} {e : Event T} (h : Ordered (events ++ [e])) :
    Ordered events ∧ ∀ a ∈ events, a.time ≤ e.time := by
  rw [Ordered, List.pairwise_append] at h
  exact ⟨h.1, fun a ha => h.2.2 a ha e (List.mem_singleton.mpr rfl)⟩

/-! ## Where a report comes from -/

/-- Each window opened at a check of the source, and each destination was checked since. -/
def Traced (events : List (Event T)) (core : ScanCore T) : Prop :=
  ∀ key start dests, core.view key = some (start, dests) →
    (∃ val, WasChecked events key val start) ∧ ∀ val ∈ dests, ∃ now, WasChecked events key val now ∧ start ≤ now

theorem WasChecked.snoc {events : List (Event T)} {key : ScanKey} {val : T} {now : ℕ} (h : WasChecked events key val now)
    (e : Event T) : WasChecked (events ++ [e]) key val now := by
  obtain ⟨it, hin⟩ := h
  exact ⟨it, List.mem_append_left _ hin⟩

theorem Traced.snoc {events : List (Event T)} {core core' : ScanCore T} (h : Traced events core) (e : Event T)
    {key : ScanKey} {start : ℕ} {dests : List T} (hview : core'.view key = some (start, dests))
    (heq : core'.view key = core.view key) :
    (∃ val, WasChecked (events ++ [e]) key val start)
      ∧ ∀ val ∈ dests, ∃ now, WasChecked (events ++ [e]) key val now ∧ start ≤ now := by
  obtain ⟨⟨val, hopened⟩, hdests⟩ := h key start dests (heq ▸ hview)
  refine ⟨⟨val, hopened.snoc e⟩, fun d hd => ?_⟩
  obtain ⟨now, hchecked, hle⟩ := hdests d hd
  exact ⟨now, hchecked.snoc e, hle⟩

/-- The window and the destinations after a check go back to checks. -/
theorem observe_traced {events : List (Event T)} {core : ScanCore T} (h : Traced events core) (zone : UInt32)
    (src : IpAddr) (val : T) (now : ℕ) (hclock : ∀ a ∈ events, a.time ≤ now) (it : Iteration IpAddr) (window : ℕ) :
    let events' := events ++ [.check zone src val now it]
    let known := ScanCore.observe window now val (core.view ⟨zone, src⟩)
    (∃ d, WasChecked events' ⟨zone, src⟩ d known.1)
      ∧ ∀ d ∈ known.2, ∃ t, WasChecked events' ⟨zone, src⟩ d t ∧ known.1 ≤ t := by
  have hnow : WasChecked (events ++ [.check zone src val now it]) ⟨zone, src⟩ val now :=
    ⟨it, List.mem_append_right _ (List.mem_singleton.mpr rfl)⟩
  have hfresh : (∃ d, WasChecked (events ++ [.check zone src val now it]) ⟨zone, src⟩ d now)
      ∧ ∀ d ∈ [val], ∃ t, WasChecked (events ++ [.check zone src val now it]) ⟨zone, src⟩ d t ∧ now ≤ t := by
    refine ⟨⟨val, hnow⟩, fun d hd => ⟨now, ?_, Nat.le_refl _⟩⟩
    rw [List.mem_singleton.mp hd]
    exact hnow
  dsimp only
  cases hview : core.view ⟨zone, src⟩ with
  | none => exact hfresh
  | some known =>
    obtain ⟨start, dests⟩ := known
    obtain ⟨hopened, hdests⟩ := h.snoc (.check zone src val now it) hview rfl
    have hstart : start ≤ now := by
      obtain ⟨⟨d, it', hin⟩, -⟩ := h _ start dests hview
      exact hclock _ hin
    rw [ScanCore.observe]
    split_ifs
    · exact hfresh
    · exact ⟨hopened, hdests⟩
    · refine ⟨hopened, fun d hd => ?_⟩
      rcases List.mem_append.mp hd with hd | hd
      · exact hdests d hd
      · rw [List.mem_singleton.mp hd]
        exact ⟨now, hnow, hstart⟩

theorem traced_runOf {window : UInt32 → ℕ} (hw : Windows window) (seed : UInt64) {events : List (Event T)}
    (hclock : Ordered events) : Traced events (runOf window seed events) := by
  induction events using List.reverseRecOn with
  | nil =>
    intro key start dests hview
    cases hview
  | append_singleton events e ih =>
    obtain ⟨hbefore, hlast⟩ := hclock.le_last
    have htraced := ih hbefore
    have hsound := sound_runOf hw seed events
    intro key start dests hview
    rw [runOf_snoc] at hview
    cases e with
    | check zone src val now it =>
      have hchecked := ScanCore.check_checked hsound.consistent hsound.capped it ⟨zone, src⟩ val now (hw.positive zone)
      rw [step] at hview
      dsimp only at hchecked
      generalize (runOf window seed events).check it zone src val now (window zone) = r at hchecked hview
      cases hchecked with
      | skipped core' full absent same => exact htraced.snoc _ hview (same.view key)
      | recorded core' consistent capped view others =>
        rcases eq_or_ne key ⟨zone, src⟩ with rfl | hne
        · have hobserved := observe_traced htraced zone src val now hlast it (window zone)
          rw [view, Option.some.injEq] at hview
          dsimp only at hobserved
          rw [hview] at hobserved
          exact hobserved
        · rcases others key hne with heq | ⟨-, hnone, -⟩
          · exact htraced.snoc _ hview heq
          · rw [hnone] at hview
            cases hview
    | cleanup now reapFloor =>
      rw [step] at hview
      rcases (ScanCore.cleanup_cleaned hsound.consistent now reapFloor).view key with heq | ⟨hnone, -⟩
      · exact htraced.snoc _ hview heq
      · rw [hnone] at hview
        cases hview

/-- The source was checked with ten distinct destinations within less than a window. -/
def Scanned (events : List (Event T)) (window : ℕ) (key : ScanKey) (now : ℕ) : Prop :=
  ∃ dests : List T, dests.Nodup ∧ dests.length = scanDetectCount
    ∧ ∃ start, now < start + window ∧ ∀ val ∈ dests, ∃ t, WasChecked events key val t ∧ start ≤ t ∧ t ≤ now

omit [DecidableEq T] in
theorem view_distinct {core : ScanCore T} {key : ScanKey} {start : ℕ} {dests : List T}
    (h : core.view key = some (start, dests)) : dests.Nodup ∧ dests.length ≤ scanDetectCount := by
  obtain ⟨e, -, heq⟩ := Option.map_eq_some_iff.mp h
  rw [Prod.mk.injEq] at heq
  exact heq.2 ▸ ⟨e.distinct, e.bounded⟩

theorem observe_open {window : ℕ} (hwindow : 0 < window) (now : ℕ) (val : T) (known : Option (ℕ × List T)) :
    now < (ScanCore.observe window now val known).1 + window := by
  cases known with
  | none => exact Nat.lt_add_of_pos_right hwindow
  | some known =>
    obtain ⟨start, dests⟩ := known
    rw [ScanCore.observe]
    split_ifs
    · exact Nat.lt_add_of_pos_right hwindow
    · dsimp only
      omega
    · dsimp only
      omega

/-- A report names a source that was checked with ten distinct destinations. -/
theorem scanned_of_report {window : UInt32 → ℕ} (hw : Windows window) (seed : UInt64) {events : List (Event T)}
    {zone : UInt32} {src : IpAddr} {val : T} {now : ℕ} {it : Iteration IpAddr}
    (hclock : Ordered (events ++ [.check zone src val now it]))
    (hreport : ((runOf window seed events).check it zone src val now (window zone)).2 = true) :
    Scanned (events ++ [.check zone src val now it]) (window zone) ⟨zone, src⟩ now := by
  obtain ⟨hbefore, hlast⟩ := hclock.le_last
  have hsound := sound_runOf hw seed events
  have hchecked := ScanCore.check_checked hsound.consistent hsound.capped it ⟨zone, src⟩ val now (hw.positive zone)
  have hobserved := observe_traced (traced_runOf hw seed hbefore) zone src val now hlast it (window zone)
  have hopen := observe_open (hw.positive zone) now val ((runOf window seed events).view ⟨zone, src⟩)
  dsimp only at hchecked hobserved
  generalize (runOf window seed events).check it zone src val now (window zone) = r at hchecked hreport
  cases hchecked with
  | skipped => cases hreport
  | recorded core' consistent capped view others =>
    dsimp only at hreport
    rw [decide_eq_true_eq] at hreport
    obtain ⟨hnodup, hbounded⟩ := view_distinct view
    refine ⟨_, hnodup, Nat.le_antisymm hbounded hreport, _, hopen, fun d hd => ?_⟩
    obtain ⟨t, ⟨it', hin⟩, hstart⟩ := hobserved.2 d hd
    refine ⟨t, ⟨it', hin⟩, hstart, ?_⟩
    rcases List.mem_append.mp hin with hin | hin
    · exact hlast _ hin
    · rw [List.mem_singleton] at hin
      cases hin
      exact Nat.le_refl _

end Xpf.ScanTracker
