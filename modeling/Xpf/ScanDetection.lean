/-
What the scan trackers find in a zone that has room for its sources.

The window of a source is defined by the checks alone (`openWindow`): it opens at a check, the
checks until it is over add their destinations, and the first check after that opens the next.
In a zone that never needs an eviction the tracker has the first ten destinations of that
window, unless a cleanup has dropped the source, which it does only once the window is over
(`Tracks`). So the tracker reports exactly the checks that find ten destinations in the window.
-/
import Mathlib.Data.List.Dedup
import Xpf.ScanRuns

set_option autoImplicit false

namespace Xpf.ScanTracker

open Xpf.Sessions (IpAddr)
open Xpf.GenGuard (Iteration)

variable {T : Type} [DecidableEq T]

/-! ## The windows -/

/-- The window of a source after one more check, with every destination kept. -/
def widen (window now : ℕ) (val : T) : Option (ℕ × List T) → ℕ × List T
  | none => (now, [val])
  | some (start, dests) =>
    if window ≤ now - start then (now, [val])
    else if val ∈ dests then (start, dests)
    else (start, dests ++ [val])

/-- What an event does to the window of a source. -/
def widenBy (window : UInt32 → ℕ) (key : ScanKey) (known : Option (ℕ × List T)) : Event T → Option (ℕ × List T)
  | .check zone src val now _ => if key = ⟨zone, src⟩ then some (widen (window zone) now val known) else known
  | .cleanup _ _ => known

/-- The window of a source that was open last, with its distinct destinations. -/
def openWindow (window : UInt32 → ℕ) (key : ScanKey) (events : List (Event T)) : Option (ℕ × List T) :=
  events.foldl (widenBy window key) none

/-- The distinct destinations of the window. -/
def openDests (window : UInt32 → ℕ) (key : ScanKey) (events : List (Event T)) : List T :=
  ((openWindow window key events).map Prod.snd).getD []

theorem openWindow_snoc (window : UInt32 → ℕ) (key : ScanKey) (events : List (Event T)) (e : Event T) :
    openWindow window key (events ++ [e]) = widenBy window key (openWindow window key events) e := by
  rw [openWindow, List.foldl_append]
  rfl

theorem widen_nodup (window now : ℕ) (val : T) {known : Option (ℕ × List T)}
    (h : ∀ start dests, known = some (start, dests) → dests.Nodup) : (widen window now val known).2.Nodup := by
  cases known with
  | none => exact List.nodup_singleton val
  | some known =>
    obtain ⟨start, dests⟩ := known
    rw [widen]
    split_ifs with hover hmem
    · exact List.nodup_singleton val
    · exact h start dests rfl
    · apply List.Nodup.append (h start dests rfl) (List.nodup_singleton val)
      rw [List.disjoint_singleton]
      exact hmem

/-- The destinations of a window are distinct. -/
theorem openWindow_nodup (window : UInt32 → ℕ) (key : ScanKey) (events : List (Event T)) :
    ∀ start dests, openWindow window key events = some (start, dests) → dests.Nodup := by
  induction events using List.reverseRecOn with
  | nil =>
    intro start dests h
    cases h
  | append_singleton events e ih =>
    intro start dests h
    rw [openWindow_snoc] at h
    cases e with
    | check zone src val now it =>
      rw [widenBy] at h
      split at h
      · have hnodup := widen_nodup (window zone) now val ih
        rw [Option.some.injEq] at h
        rw [h] at hnodup
        exact hnodup
      · exact ih start dests h
    | cleanup now reapFloor => exact ih start dests h

theorem openDests_nodup (window : UInt32 → ℕ) (key : ScanKey) (events : List (Event T)) :
    (openDests window key events).Nodup := by
  rw [openDests]
  cases h : openWindow window key events with
  | none => exact List.nodup_nil
  | some known => exact openWindow_nodup window key events known.1 known.2 h

/-! ## A zone with room -/

/-- A check of the zone finds its source tracked, or room for it. -/
def HasRoom (zone : UInt32) (core : ScanCore T) : Event T → Prop
  | .check z src _ _ _ => z = zone → core.view ⟨z, src⟩ ≠ none ∨ core.zoneCount z < maxSourcesPerZone
  | .cleanup _ _ => True

/-- The zone never has to track more sources than it may. -/
def Uncapped (window : UInt32 → ℕ) (seed : UInt64) (zone : UInt32) (events : List (Event T)) : Prop :=
  Runs.EachStep (step window) (ScanCore.withSeed seed) (HasRoom zone) events

/-- The sources that were checked in a zone. -/
def sourcesOf (zone : UInt32) (events : List (Event T)) : List IpAddr :=
  events.filterMap fun
    | .check z src _ _ _ => if z = zone then some src else none
    | .cleanup _ _ => none

theorem mem_sourcesOf {zone : UInt32} {events : List (Event T)} {src : IpAddr} {val : T} {now : ℕ}
    {it : Iteration IpAddr} (h : .check zone src val now it ∈ events) : src ∈ sourcesOf zone events := by
  rw [sourcesOf, List.mem_filterMap]
  exact ⟨_, h, if_pos rfl⟩

/-- A zone with few sources never needs an eviction: all that it tracks were checked. -/
theorem uncapped_of_few {window : UInt32 → ℕ} (hw : Windows window) (seed : UInt64) {events : List (Event T)}
    (hclock : Ordered events) {zone : UInt32} (hfew : (sourcesOf zone events).dedup.length ≤ maxSourcesPerZone) :
    Uncapped window seed zone events := by
  intro before e hpre
  cases e with
  | cleanup => trivial
  | check z src val now it =>
    intro hzone
    subst hzone
    by_cases htracked : (runOf window seed before).view ⟨z, src⟩ = none
    · refine .inr (Nat.lt_of_lt_of_le ?_ hfew)
      have hbefore : before <+: events := (List.prefix_append before _).trans hpre
      have hsound := sound_runOf hw seed before
      have htraced := traced_runOf hw seed (hclock.sublist hbefore.sublist)
      -- the tracked sources and the new one are distinct sources of the run
      have hnodup : (src :: ((runOf window seed before).zoneSrcs z).keys).Nodup := by
        refine List.nodup_cons.mpr ⟨fun hin => ?_, AList.keys_nodup _⟩
        have hmem := (hsound.consistent.zones z src).mp (AList.mem_keys.mpr hin)
        exact ScanCore.view_eq_none_iff.mp htracked hmem
      have hsub : src :: ((runOf window seed before).zoneSrcs z).keys ⊆ (sourcesOf z events).dedup := by
        intro a ha
        rw [List.mem_dedup]
        rcases List.mem_cons.mp ha with rfl | ha
        · apply mem_sourcesOf
          exact hpre.subset (List.mem_append_right _ (List.mem_singleton.mpr rfl))
        · have hmem := (hsound.consistent.zones z a).mp (AList.mem_keys.mpr ha)
          have hne : (runOf window seed before).view ⟨z, a⟩ ≠ none := fun hnone =>
            ScanCore.view_eq_none_iff.mp hnone hmem
          obtain ⟨⟨start, dests⟩, hview⟩ := Option.ne_none_iff_exists'.mp hne
          obtain ⟨⟨d, it', hin⟩, -⟩ := htraced _ start dests hview
          apply mem_sourcesOf
          exact hbefore.subset hin
      exact (List.subperm_of_subset hnodup hsub).length_le
    · exact .inl htracked

/-! ## What the tracker has of a window -/

/-- The first ten destinations of the window, or nothing once it is over. -/
def Tracks (window : UInt32 → ℕ) (events : List (Event T)) (core : ScanCore T) (key : ScanKey) : Prop :=
  match openWindow window key events with
  | none => core.view key = none
  | some (start, dests) => core.view key = some (start, dests.take scanDetectCount)
    ∨ (core.view key = none ∧ ∃ e ∈ events, window key.zone ≤ e.time - start)

/-- The first ten destinations after a check. -/
theorem observe_take (window now start : ℕ) (val : T) (dests : List T) :
    ScanCore.observe window now val (some (start, dests.take scanDetectCount))
      = ((widen window now val (some (start, dests))).1, (widen window now val (some (start, dests))).2.take scanDetectCount) := by
  rw [ScanCore.observe, widen]
  by_cases hover : window ≤ now - start
  · rw [if_pos hover, if_pos hover]
    rfl
  · rw [if_neg hover, if_neg hover]
    by_cases hroom : dests.length < scanDetectCount
    · -- all of them are kept so far
      rw [List.take_of_length_le (Nat.le_of_lt hroom)]
      by_cases hmem : val ∈ dests
      · rw [if_pos (.inl hmem), if_pos hmem, List.take_of_length_le (Nat.le_of_lt hroom)]
      · rw [if_neg (not_or.mpr ⟨hmem, Nat.not_le.mpr hroom⟩), if_neg hmem, List.take_of_length_le]
        rw [List.length_append, List.length_singleton]
        exact hroom
    · have hfull : scanDetectCount ≤ (dests.take scanDetectCount).length := by
        rw [List.length_take]
        omega
      rw [if_pos (.inr hfull)]
      split_ifs
      · rfl
      · rw [List.take_append_of_le_length (Nat.le_of_not_lt hroom)]

/-- A check sees the window as the checks define it, up to the destinations it does not keep. -/
theorem Tracks.observe {window : UInt32 → ℕ} {events : List (Event T)} {core : ScanCore T} {key : ScanKey}
    (h : Tracks window events core key) {now : ℕ} (hclock : ∀ a ∈ events, a.time ≤ now) (val : T) :
    let known := widen (window key.zone) now val (openWindow window key events)
    ScanCore.observe (window key.zone) now val (core.view key) = (known.1, known.2.take scanDetectCount) := by
  rw [Tracks] at h
  cases hopen : openWindow window key events with
  | none =>
    rw [hopen] at h
    dsimp only at h ⊢
    rw [h]
    rfl
  | some known =>
    obtain ⟨start, dests⟩ := known
    rw [hopen] at h
    dsimp only at h ⊢
    rcases h with hview | ⟨hnone, e, he, hover⟩
    · rw [hview]
      exact observe_take (window key.zone) now start val dests
    · -- the window was over when the source was dropped, and the clock has not gone back
      have hlate := hclock e he
      have hreset : window key.zone ≤ now - start := by omega
      rw [hnone, widen, if_pos hreset]
      rfl

theorem Tracks.snoc {window : UInt32 → ℕ} {events : List (Event T)} {core core' : ScanCore T} {key : ScanKey}
    (h : Tracks window events core key) {e : Event T}
    (hopen : openWindow window key (events ++ [e]) = openWindow window key events)
    (hview : core'.view key = core.view key) : Tracks window (events ++ [e]) core' key := by
  rw [Tracks] at h ⊢
  rw [hopen, hview]
  cases hwindow : openWindow window key events with
  | none =>
    rw [hwindow] at h
    exact h
  | some known =>
    rw [hwindow] at h
    refine h.imp_right ?_
    rintro ⟨hnone, a, ha, hover⟩
    exact ⟨hnone, a, List.mem_append_left _ ha, hover⟩

theorem openWindow_other {window : UInt32 → ℕ} {events : List (Event T)} {key : ScanKey} {zone : UInt32} {src : IpAddr}
    (hne : key ≠ ⟨zone, src⟩) (val : T) (now : ℕ) (it : Iteration IpAddr) :
    openWindow window key (events ++ [.check zone src val now it]) = openWindow window key events := by
  rw [openWindow_snoc, widenBy, if_neg hne]

theorem openWindow_cleanup (window : UInt32 → ℕ) (events : List (Event T)) (key : ScanKey) (now reapFloor : ℕ) :
    openWindow window key (events ++ [.cleanup now reapFloor]) = openWindow window key events := by
  rw [openWindow_snoc, widenBy]

theorem openWindow_check (window : UInt32 → ℕ) (events : List (Event T)) (zone : UInt32) (src : IpAddr) (val : T)
    (now : ℕ) (it : Iteration IpAddr) :
    openWindow window ⟨zone, src⟩ (events ++ [.check zone src val now it])
      = some (widen (window zone) now val (openWindow window ⟨zone, src⟩ events)) := by
  rw [openWindow_snoc, widenBy, if_pos rfl]

theorem tracks_check {window : UInt32 → ℕ} {events : List (Event T)} {core core' : ScanCore T} {zone : UInt32}
    {src : IpAddr} {val : T} {now : ℕ} (it : Iteration IpAddr) (h : Tracks window events core ⟨zone, src⟩)
    (hclock : ∀ a ∈ events, a.time ≤ now)
    (hview : core'.view ⟨zone, src⟩ = some (ScanCore.observe (window zone) now val (core.view ⟨zone, src⟩))) :
    Tracks window (events ++ [.check zone src val now it]) core' ⟨zone, src⟩ := by
  have hobserve := h.observe hclock val
  dsimp only at hobserve
  rw [Tracks, openWindow_check]
  refine .inl ?_
  rw [hview, hobserve]
  rfl

/-- A cleanup drops a source only when its window is over. -/
theorem tracks_cleanup {window : UInt32 → ℕ} (hw : Windows window) {events : List (Event T)} {core : ScanCore T}
    (hsound : Sound core) {key : ScanKey} (h : Tracks window events core key) {now reapFloor : ℕ}
    (hfloor : window key.zone ≤ reapFloor) :
    Tracks window (events ++ [.cleanup now reapFloor]) (core.cleanup now reapFloor).1 key := by
  rcases (ScanCore.cleanup_cleaned hsound.consistent now reapFloor).view key with heq | ⟨hnone, start, dests, hview, hgone⟩
  · exact h.snoc (openWindow_cleanup window events key now reapFloor) heq
  · have hover : window key.zone ≤ now - start := by
      have hle : min reapFloor maxCleanupWindowMicros ≤ now - start :=
        hgone.resolve_right (hsound.nonempty key start dests hview)
      have hbound := hw.bounded key.zone
      omega
    rw [Tracks] at h ⊢
    rw [openWindow_cleanup]
    cases hopen : openWindow window key events with
    | none => exact hnone
    | some known =>
      obtain ⟨start', dests'⟩ := known
      rw [hopen] at h
      dsimp only at h ⊢
      refine .inr ⟨hnone, .cleanup now reapFloor, List.mem_append_right _ (List.mem_singleton.mpr rfl), ?_⟩
      -- what was dropped is what the window said
      have hsame : core.view key = some (start', dests'.take scanDetectCount) := by
        apply h.resolve_right
        rintro ⟨habsent, -⟩
        rw [habsent] at hview
        cases hview
      rw [hview, Option.some.injEq, Prod.mk.injEq] at hsame
      rw [← hsame.1]
      exact hover

theorem tracks_runOf {window : UInt32 → ℕ} (hw : Windows window) (seed : UInt64) {events : List (Event T)}
    (hclock : Ordered events) (hfloor : ∀ e ∈ events, e.Respects window) {zone : UInt32}
    (hroom : Uncapped window seed zone events) (src : IpAddr) :
    Tracks window events (runOf window seed events) ⟨zone, src⟩ := by
  induction events using List.reverseRecOn with
  | nil => exact rfl
  | append_singleton events e ih =>
    obtain ⟨hbefore, hlast⟩ := hclock.le_last
    have htracks := ih hbefore (fun a ha => hfloor a (List.mem_append_left _ ha))
      (hroom.mono (List.prefix_append events [e]))
    have hsound := sound_runOf hw seed events
    have hfits : HasRoom zone (runOf window seed events) e := hroom events e (List.prefix_refl _)
    rw [runOf_snoc]
    cases e with
    | cleanup now reapFloor =>
      have hrespects : ∀ z, window z ≤ reapFloor := hfloor (.cleanup now reapFloor) (by simp)
      exact tracks_cleanup hw hsound htracks (hrespects zone)
    | check z s val now it =>
      have hchecked := ScanCore.check_checked hsound.consistent hsound.capped it ⟨z, s⟩ val now (hw.positive z)
      rw [step]
      dsimp only at hchecked
      generalize (runOf window seed events).check it z s val now (window z) = r at hchecked ⊢
      -- another source of the zone stays: nothing is evicted
      have hothers : ∀ core' : ScanCore T, (⟨zone, src⟩ : ScanKey) ≠ ⟨z, s⟩ →
          core'.view ⟨zone, src⟩ = (runOf window seed events).view ⟨zone, src⟩ →
          Tracks window (events ++ [.check z s val now it]) core' ⟨zone, src⟩ :=
        fun core' hne heq => htracks.snoc (openWindow_other hne val now it) heq
      cases hchecked with
      | skipped core' full absent same =>
        apply hothers core' _ (same.view _)
        intro heq
        cases heq
        exact (hfits rfl).elim (fun hne => hne absent) (Nat.not_lt.mpr full)
      | recorded core' consistent capped view others =>
        rcases eq_or_ne (⟨zone, src⟩ : ScanKey) ⟨z, s⟩ with heq | hne
        · cases heq
          exact tracks_check it htracks hlast view
        · rcases others _ hne with heq | ⟨hzone, -, habsent, hfull⟩
          · exact hothers core' hne heq
          · exact ((hfits hzone.symm).elim (fun htracked => htracked habsent) (Nat.not_lt.mpr hfull)).elim

/-- In a zone with room the tracker reports exactly the checks that find ten destinations in the
window. -/
theorem report_iff {window : UInt32 → ℕ} (hw : Windows window) (seed : UInt64) {events : List (Event T)} {zone : UInt32}
    {src : IpAddr} {val : T} {now : ℕ} {it : Iteration IpAddr}
    (hclock : Ordered (events ++ [.check zone src val now it])) (hfloor : ∀ e ∈ events, e.Respects window)
    (hroom : Uncapped window seed zone (events ++ [.check zone src val now it])) :
    ((runOf window seed events).check it zone src val now (window zone)).2 = true
      ↔ scanDetectCount ≤ (openDests window ⟨zone, src⟩ (events ++ [.check zone src val now it])).length := by
  obtain ⟨hbefore, hlast⟩ := hclock.le_last
  have hsound := sound_runOf hw seed events
  have htracks := tracks_runOf hw seed hbefore hfloor (hroom.mono (List.prefix_append _ _)) src
  have hobserve := htracks.observe hlast val
  have hfits : HasRoom zone (runOf window seed events) (.check zone src val now it) := hroom _ _ (List.prefix_refl _)
  have hchecked := ScanCore.check_checked hsound.consistent hsound.capped it ⟨zone, src⟩ val now (hw.positive zone)
  rw [openDests, openWindow_check]
  dsimp only at hchecked hobserve
  generalize (runOf window seed events).check it zone src val now (window zone) = r at hchecked ⊢
  cases hchecked with
  | skipped core' full absent => exact ((hfits rfl).elim (fun hne => hne absent) (Nat.not_lt.mpr full)).elim
  | recorded core' consistent capped view others =>
    rw [decide_eq_true_eq]
    change scanDetectCount ≤ (ScanCore.observe (window zone) now val _).2.length ↔ _
    rw [show ScanCore.observe (window zone) now val _ = _ from hobserve, List.length_take, Option.map_some,
      Option.getD_some]
    exact Nat.le_min.trans (and_iff_right (Nat.le_refl _))

/-- A check changes nothing in another zone. -/
theorem check_other_zone {window : UInt32 → ℕ} (hw : Windows window) {core : ScanCore T} (h : Sound core)
    (it : Iteration IpAddr) (zone : UInt32) (src : IpAddr) (val : T) (now : ℕ) {key : ScanKey} (hzone : key.zone ≠ zone) :
    (core.check it zone src val now (window zone)).1.view key = core.view key := by
  have hchecked := ScanCore.check_checked h.consistent h.capped it ⟨zone, src⟩ val now (hw.positive zone)
  dsimp only at hchecked
  generalize core.check it zone src val now (window zone) = r at hchecked ⊢
  cases hchecked with
  | skipped core' full absent same => exact same.view key
  | recorded core' consistent capped view others =>
    have hne : key ≠ ⟨zone, src⟩ := by
      rintro rfl
      exact hzone rfl
    rcases others key hne with heq | ⟨hsame, -⟩
    · exact heq
    · exact (hzone hsame).elim

/-- **Scan detection.** For every run of checks and cleanups with a clock that does not go back,
one window for each zone and floors no lower than the windows: the table, the index and the
ring agree, with right positions; no zone is above its cap; a check leaves the sources of other
zones; what it reports was checked with ten distinct destinations within less than a window;
and in a zone that never has more sources than it may track it reports exactly the checks that
find ten distinct destinations in the open window. A zone in which no more sources are checked
than it may track is one of these. -/
theorem scan_detection {window : UInt32 → ℕ} (hw : Windows window) (seed : UInt64) {events : List (Event T)}
    (hclock : Ordered events) (hfloor : ∀ e ∈ events, e.Respects window) :
    (runOf window seed events).Consistent
      ∧ (∀ zone, (runOf window seed events).zoneCount zone ≤ maxSourcesPerZone)
      ∧ (∀ zone, (sourcesOf zone events).dedup.length ≤ maxSourcesPerZone → Uncapped window seed zone events)
      ∧ ∀ before zone src val now it, before ++ [.check zone src val now it] <+: events →
        let checked := (runOf window seed before).check it zone src val now (window zone)
        (∀ key, key.zone ≠ zone → checked.1.view key = (runOf window seed before).view key)
          ∧ (checked.2 = true → Scanned (before ++ [.check zone src val now it]) (window zone) ⟨zone, src⟩ now)
          ∧ (Uncapped window seed zone events →
            (checked.2 = true
              ↔ scanDetectCount ≤ (openDests window ⟨zone, src⟩ (before ++ [.check zone src val now it])).length)) := by
  have hsound := sound_runOf hw seed events
  refine ⟨hsound.consistent, hsound.capped, fun zone hfew => uncapped_of_few hw seed hclock hfew, ?_⟩
  intro before zone src val now it hpre
  have hclock' : Ordered (before ++ [.check zone src val now it]) := hclock.sublist hpre.sublist
  refine ⟨fun key hzone => ?_, fun hreport => ?_, fun hroom => ?_⟩
  · exact check_other_zone hw (sound_runOf hw seed before) it zone src val now hzone
  · exact scanned_of_report hw seed hclock' hreport
  · apply report_iff hw seed hclock' _ (hroom.mono hpre)
    intro e he
    exact hfloor e (hpre.subset (List.mem_append_left _ he))

/-- Ten ports of one source, a microsecond apart. -/
def tenPorts : List (Event UInt16) :=
  (List.range 10).map fun i => .check 1 (.v4 7) i.toUInt16 i ⟨id, fun _ => .refl _⟩

theorem scan_detection_tenPorts :
    ((runOf (fun _ => 1000) 0 (tenPorts.take 9)).check ⟨id, fun _ => .refl _⟩ 1 (.v4 7) 9 9 1000).2 = true := by
  have hclock : Ordered tenPorts := by
    rw [Ordered]
    decide
  have hfloor : ∀ e ∈ tenPorts, e.Respects fun _ => 1000 := by
    intro e he
    obtain ⟨i, -, rfl⟩ := List.mem_map.mp he
    trivial
  have hscan := @scan_detection _ _ (fun _ => 1000) ⟨fun _ => by decide, fun _ => by decide⟩ 0 _ hclock hfloor
  have hfew : (sourcesOf 1 tenPorts).dedup.length ≤ maxSourcesPerZone := by decide
  exact ((hscan.2.2.2 (tenPorts.take 9) 1 (.v4 7) 9 9 ⟨id, fun _ => .refl _⟩ (by exact ⟨[], rfl⟩)).2.2
    (hscan.2.2.1 1 hfew)).mpr (by decide)

end Xpf.ScanTracker
