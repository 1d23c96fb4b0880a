/-
Monitor debt of redundancy groups: `SetMonitorWeight`, `recalcWeight`,
`monitorDebtTotalLocked` and `reconcileMonitorDebtsLocked` of `pkg/cluster/election.go`,
and the way `group_state.go` sets up a group.

A failed monitor costs its group some of its weight. The cost is kept per group and
monitor in one map, the names of the failed monitors once more in each group, and the
weight they leave in a third place; every entry point updates all three by itself.

A recalculation ends with an election. Of what is modelled here an election touches only
the groups under a manual hold, whose release puts the derived weight back; which holds it
releases depends on the peer and the clock, and is an argument of the call.
-/
import Xpf.GoStrings
import Xpf.Runs
import Mathlib.Data.List.AList
import Mathlib.Data.List.Sort
import Mathlib.Algebra.BigOperators.Group.Finset.Basic
import Mathlib.Tactic.Linarith

set_option autoImplicit false

namespace Xpf.MonitorDebt

open GoStrings

/-! ## Groups and debts -/

/-- A `RedundancyGroupState`, as far as its weight goes. -/
structure Group where
  weight : ℤ
  monitorFails : List Bytes
  manualFailover : Bool
  forcedSecondary : Bool
deriving DecidableEq

/-- `monitorKey`: a group and the name of a monitor. -/
abbrev MonitorKey := ℤ × Bytes

/-- The `Manager`'s groups and monitor debts. -/
structure Manager where
  groups : ℤ → Option Group
  monitorWeights : AList (fun _ : MonitorKey => ℤ)

/-- `maxRedundancyGroupWeight`. -/
def maxRedundancyGroupWeight : ℤ := 255

/-- `ClampInterfaceMonitorWeight`. -/
def clampInterfaceMonitorWeight (w : ℤ) : ℤ := if w < 0 then 0 else if 255 < w then 255 else w

/-- `DataplaneArmMonitorIface`. -/
def dataplaneArmMonitorIface : Bytes := bytes "__dataplane-arm__"

/-- `DataplaneArmMonitorCost`. -/
def dataplaneArmMonitorCost : ℤ := maxRedundancyGroupWeight - 1

/-- `startupSyncHoldMonitorIface`. -/
def startupSyncHoldMonitorIface : Bytes := bytes "__session-sync-startup-hold__"

/-- `HelperCrashLoopMonitorIface`. -/
def helperCrashLoopMonitorIface : Bytes := bytes "__userspace-helper-crash-loop__"

/-- `PlannedShutdownMonitorIface`. -/
def plannedShutdownMonitorIface : Bytes := bytes "__planned-shutdown__"

/-- `ipAggregateMonitorName`. -/
def ipAggregateMonitorName : Bytes := bytes "ip-monitoring"

/-- `isIPMonitorName`. -/
def isIPMonitorName (iface : Bytes) : Bool := iface = ipAggregateMonitorName || (bytes "ip:").isPrefixOf iface

/-- `isReservedMonitorName`. -/
def isReservedMonitorName (iface : Bytes) : Bool :=
  isIPMonitorName iface || [ipAggregateMonitorName, dataplaneArmMonitorIface, helperCrashLoopMonitorIface,
    startupSyncHoldMonitorIface, plannedShutdownMonitorIface].contains iface

/-- `rgWeightFromDebt`. -/
def rgWeightFromDebt (totalLost : ℤ) : ℤ :=
  let w := maxRedundancyGroupWeight - totalLost
  if w < 0 then 0 else if maxRedundancyGroupWeight < w then maxRedundancyGroupWeight else w

/-- The debt of a monitor, `0` when the map does not have it. -/
def debt (m : Manager) (rgID : ℤ) (iface : Bytes) : ℤ := (m.monitorWeights.lookup (rgID, iface)).getD 0

/-- The names whose debts are not added up: the dataplane arm and the startup hold. -/
def isHold (iface : Bytes) : Bool := iface = dataplaneArmMonitorIface || iface = startupSyncHoldMonitorIface

/-- One failed monitor added to `totalLost` and `holdLost`. -/
def addLost (weightOf : Bytes → ℤ) (lost : ℤ × ℤ) (iface : Bytes) : ℤ × ℤ :=
  if isHold iface then (lost.1, if lost.2 < weightOf iface then weightOf iface else lost.2)
  else (lost.1 + weightOf iface, lost.2)

/-- `monitorDebtTotalLocked`. -/
def monitorDebtTotal (m : Manager) (rgID : ℤ) (monitorFails : List Bytes) : ℤ :=
  let lost := monitorFails.foldl (addLost (debt m rgID)) (0, 0)
  lost.1 + lost.2

/-- The weight a group should have: `debtDerivedWeightLocked`. -/
def debtDerivedWeight (m : Manager) (rgID : ℤ) (rg : Group) : ℤ :=
  if rg.forcedSecondary then 0 else rgWeightFromDebt (monitorDebtTotal m rgID rg.monitorFails)

/-! ## Recalculation -/

def setGroup (m : Manager) (rgID : ℤ) (rg : Group) : Manager :=
  { m with groups := fun id => if id = rgID then some rg else m.groups id }

/-- What an election leaves of the manual hold of a group, where it ends one: the flags of
the hold that is given back, if any. -/
structure Release where
  manualFailover : Bool
  forcedSecondary : Bool

/-- `runElection` or `electSingleNode`. -/
def election (m : Manager) (releases : ℤ → Option Release) : Manager :=
  { m with groups := fun id => (m.groups id).map fun rg =>
      match releases id with
      | none => rg
      | some release =>
        if rg.manualFailover then
          let rg := { rg with manualFailover := release.manualFailover, forcedSecondary := release.forcedSecondary }
          { rg with weight := debtDerivedWeight m id rg }
        else rg }

/-- The first half of `recalcWeight`. -/
def refreshWeight (m : Manager) (rgID : ℤ) : Manager :=
  match m.groups rgID with
  | none => m
  | some rg => setGroup m rgID { rg with weight := debtDerivedWeight m rgID rg }

/-- `recalcWeight`. -/
def recalcWeight (m : Manager) (rgID : ℤ) (releases : ℤ → Option Release) : Manager :=
  election (refreshWeight m rgID) releases

/-- `sort.Strings`: the bytewise order. -/
def sortStrings (names : List Bytes) : List Bytes := names.insertionSort fun a b => ¬ b < a

/-- `SetMonitorWeight`. -/
def setMonitorWeight (m : Manager) (rgID : ℤ) (iface : Bytes) (down : Bool) (weight : ℤ)
    (releases : ℤ → Option Release) : Manager :=
  match m.groups rgID with
  | none => m
  | some rg =>
    let key := (rgID, iface)
    if down then
      let m := { m with monitorWeights := m.monitorWeights.insert key (clampInterfaceMonitorWeight weight) }
      let monitorFails :=
        if rg.monitorFails.contains iface then rg.monitorFails
        else sortStrings (rg.monitorFails ++ [iface])
      recalcWeight (setGroup m rgID { rg with monitorFails := monitorFails }) rgID releases
    else
      let m := { m with monitorWeights := m.monitorWeights.erase key }
      recalcWeight (setGroup m rgID { rg with monitorFails := rg.monitorFails.erase iface }) rgID releases

/-! ## Reconciliation -/

/-- The interface monitors of a configuration: group, name and configured weight. -/
abbrev ClusterConfig := List (ℤ × List (Bytes × ℤ))

/-- The desired weights. -/
def desiredWeights (cfg : ClusterConfig) : AList (fun _ : MonitorKey => ℤ) :=
  (cfg.flatMap fun rg => rg.2.map fun im => ((rg.1, im.1), im.2)).foldl
    (fun desired t => desired.insert t.1 (clampInterfaceMonitorWeight t.2)) ∅

/-- Clear the debt of a monitor that is not desired any more. -/
def clearStale (desired : AList (fun _ : MonitorKey => ℤ)) (s : Manager × List ℤ) (key : MonitorKey) :
    Manager × List ℤ :=
  if isReservedMonitorName key.2 then s
  else if key ∈ desired then s
  else
    let m := { s.1 with monitorWeights := s.1.monitorWeights.erase key }
    match m.groups key.1 with
    | none => (m, s.2)
    | some rg => (setGroup m key.1 { rg with monitorFails := rg.monitorFails.erase key.2 }, key.1 :: s.2)

/-- Reapply the weight of a monitor that is still failed. -/
def reapply (s : Manager × List ℤ) (t : Sigma fun _ : MonitorKey => ℤ) : Manager × List ℤ :=
  match s.1.monitorWeights.lookup t.1 with
  | none => s
  | some cur =>
    if cur = t.2 then s
    else ({ s.1 with monitorWeights := s.1.monitorWeights.insert t.1 t.2 }, t.1.1 :: s.2)

/-- `reconcileMonitorDebtsLocked`. -/
def reconcileMonitorDebts (m : Manager) (cfg : ClusterConfig) : Manager :=
  let desired := desiredWeights cfg
  let cleared := m.monitorWeights.keys.foldl (clearStale desired) (m, [])
  let (m, affected) := desired.entries.foldl reapply cleared
  affected.foldl refreshWeight m

/-! ## Histories -/

/-- A new group, as `updateConfig` adds it: in a cluster it starts at the arm floor. -/
def addGroup (m : Manager) (t : ℤ × Bool) : Manager :=
  match m.groups t.1 with
  | some _ => m
  | none =>
    if t.2 then
      { setGroup m t.1 ⟨rgWeightFromDebt dataplaneArmMonitorCost, [dataplaneArmMonitorIface], false, false⟩ with
        monitorWeights := m.monitorWeights.insert (t.1, dataplaneArmMonitorIface) dataplaneArmMonitorCost }
    else setGroup m t.1 ⟨maxRedundancyGroupWeight, [], false, false⟩

/-- The manager of a list of groups, each in a cluster or not. -/
def configured (groups : List (ℤ × Bool)) : Manager :=
  groups.foldl addGroup ⟨fun _ => none, ∅⟩

/-- The calls: the two the debts are set by, and the drain, which pins weights to zero. -/
inductive Call where
  | setMonitorWeight (rgID : ℤ) (iface : Bytes) (down : Bool) (weight : ℤ) (releases : ℤ → Option Release)
  | reconcileMonitorDebts (cfg : ClusterConfig)
  | forceSecondary (active : ℤ → Bool)

/-- `ForceSecondary`, on the groups that are not disabled. -/
def forceSecondary (m : Manager) (active : ℤ → Bool) : Manager :=
  { m with groups := fun id => (m.groups id).map fun rg =>
      if active id then { rg with weight := 0, forcedSecondary := true, manualFailover := true } else rg }

def Manager.call (m : Manager) : Call → Manager
  | .setMonitorWeight rgID iface down weight releases => setMonitorWeight m rgID iface down weight releases
  | .reconcileMonitorDebts cfg => reconcileMonitorDebts m cfg
  | .forceSecondary active => forceSecondary m active

/-! ## The invariant -/

/-- The failure list of every group has no duplicates and names exactly the monitors of
the group that have a debt, and debts are between 0 and 255. -/
structure Consistent (m : Manager) : Prop where
  nodup : ∀ id rg, m.groups id = some rg → rg.monitorFails.Nodup
  keys : ∀ id rg, m.groups id = some rg → ∀ iface, iface ∈ rg.monitorFails ↔ (id, iface) ∈ m.monitorWeights
  range : ∀ key w, m.monitorWeights.lookup key = some w → 0 ≤ w ∧ w ≤ 255

/-- A group has the weight its debts leave. -/
def Settled (m : Manager) (id : ℤ) : Prop := ∀ rg, m.groups id = some rg → rg.weight = debtDerivedWeight m id rg

/-- Consistent, and every group settled except some that are to be refreshed. -/
structure SettledBut (affected : List ℤ) (m : Manager) : Prop where
  consistent : Consistent m
  settled : ∀ id, id ∉ affected → Settled m id

theorem clamp_range (w : ℤ) : 0 ≤ clampInterfaceMonitorWeight w ∧ clampInterfaceMonitorWeight w ≤ 255 := by
  unfold clampInterfaceMonitorWeight
  split_ifs <;> omega

/-- The derived weight reads the debts of the group and nothing else of the manager. -/
theorem debtDerivedWeight_congr {m m' : Manager} {id : ℤ} {rg : Group}
    (h : ∀ iface, debt m id iface = debt m' id iface) : debtDerivedWeight m id rg = debtDerivedWeight m' id rg := by
  unfold debtDerivedWeight monitorDebtTotal
  rw [show debt m id = debt m' id from funext h]

theorem setGroup_same (m : Manager) (rgID : ℤ) (rg : Group) : (setGroup m rgID rg).groups rgID = some rg :=
  if_pos rfl

theorem setGroup_ne {m : Manager} {rgID id : ℤ} (rg : Group) (h : id ≠ rgID) :
    (setGroup m rgID rg).groups id = m.groups id := if_neg h

/-- A group is settled if neither it nor its debts have changed. -/
theorem Settled.congr {m m' : Manager} {id : ℤ} (h : Settled m id) (hgroup : m'.groups id = m.groups id)
    (hdebt : ∀ iface, debt m' id iface = debt m id iface) : Settled m' id := by
  intro rg hrg
  rw [debtDerivedWeight_congr hdebt]
  exact h rg (hgroup ▸ hrg)

/-- Refreshing a group settles it. -/
theorem SettledBut.refresh {m : Manager} {rgID : ℤ} {affected : List ℤ} (h : SettledBut (rgID :: affected) m) :
    SettledBut affected (refreshWeight m rgID) := by
  unfold refreshWeight
  cases hrg : m.groups rgID with
  | none =>
    refine ⟨h.consistent, fun id hid => ?_⟩
    by_cases hsame : id = rgID
    · subst hsame
      intro rg hrg'
      rw [hrg] at hrg'
      cases hrg'
    · exact h.settled id (by simp [hsame, hid])
  | some rg =>
    dsimp only
    refine ⟨⟨?_, ?_, h.consistent.range⟩, ?_⟩
    · intro id rg' hrg'
      by_cases hsame : id = rgID
      · subst hsame
        rw [setGroup_same] at hrg'
        obtain rfl := Option.some.inj hrg'
        exact h.consistent.nodup id rg hrg
      · rw [setGroup_ne _ hsame] at hrg'
        exact h.consistent.nodup id rg' hrg'
    · intro id rg' hrg'
      by_cases hsame : id = rgID
      · subst hsame
        rw [setGroup_same] at hrg'
        obtain rfl := Option.some.inj hrg'
        exact h.consistent.keys id rg hrg
      · rw [setGroup_ne _ hsame] at hrg'
        exact h.consistent.keys id rg' hrg'
    · intro id hid
      by_cases hsame : id = rgID
      · subst hsame
        intro rg' hrg'
        rw [setGroup_same] at hrg'
        obtain rfl := Option.some.inj hrg'
        rfl
      · exact (h.settled id (by simp [hsame, hid])).congr (setGroup_ne _ hsame) (fun _ => rfl)

/-- An election settles what it changes. -/
theorem SettledBut.elect {m : Manager} (h : SettledBut [] m) (releases : ℤ → Option Release) :
    SettledBut [] (election m releases) := by
  have hgroups : ∀ id rg', (election m releases).groups id = some rg' →
      ∃ rg, m.groups id = some rg ∧ rg'.monitorFails = rg.monitorFails
        ∧ (rg' = rg ∨ rg'.weight = debtDerivedWeight m id rg') := by
    intro id rg' hrg'
    unfold election at hrg'
    dsimp only at hrg'
    obtain ⟨rg, hrg, rfl⟩ := Option.map_eq_some_iff.mp hrg'
    refine ⟨rg, hrg, ?_⟩
    split
    · exact ⟨rfl, Or.inl rfl⟩
    · split_ifs
      · exact ⟨rfl, Or.inr rfl⟩
      · exact ⟨rfl, Or.inl rfl⟩
  refine ⟨⟨?_, ?_, h.consistent.range⟩, ?_⟩
  · intro id rg' hrg'
    obtain ⟨rg, hrg, hfails, -⟩ := hgroups id rg' hrg'
    rw [hfails]
    exact h.consistent.nodup id rg hrg
  · intro id rg' hrg'
    obtain ⟨rg, hrg, hfails, -⟩ := hgroups id rg' hrg'
    rw [hfails]
    exact h.consistent.keys id rg hrg
  · intro id hid rg' hrg'
    obtain ⟨rg, hrg, -, rfl | hweight⟩ := hgroups id rg' hrg'
    · exact h.settled id hid rg' hrg
    · exact hweight

theorem mem_iff_lookup {W : AList (fun _ : MonitorKey => ℤ)} {key : MonitorKey} :
    key ∈ W ↔ W.lookup key ≠ none := by
  rw [ne_eq, AList.lookup_eq_none, not_not]

/-- A change of one debt, and of the failure list of its group, leaves that group to be
refreshed. -/
theorem SettledBut.change {m m' : Manager} {affected : List ℤ} {rgID : ℤ} {iface : Bytes}
    (h : SettledBut affected m) (hother : ∀ id, id ≠ rgID → m'.groups id = m.groups id)
    (hkeys : ∀ key, key ≠ (rgID, iface) → m'.monitorWeights.lookup key = m.monitorWeights.lookup key)
    (hrange : ∀ w, m'.monitorWeights.lookup (rgID, iface) = some w → 0 ≤ w ∧ w ≤ 255)
    (hgroup : ∀ rg', m'.groups rgID = some rg' →
      rg'.monitorFails.Nodup ∧ ∀ i, i ∈ rg'.monitorFails ↔ (rgID, i) ∈ m'.monitorWeights) :
    SettledBut (rgID :: affected) m' := by
  have hkey : ∀ id i, id ≠ rgID → m'.monitorWeights.lookup (id, i) = m.monitorWeights.lookup (id, i) := by
    intro id i hid
    exact hkeys _ fun heq => hid (congrArg Prod.fst heq)
  refine ⟨⟨?_, ?_, ?_⟩, ?_⟩
  · intro id rg hrg
    by_cases hid : id = rgID
    · subst hid
      exact (hgroup rg hrg).1
    · exact h.consistent.nodup id rg (hother id hid ▸ hrg)
  · intro id rg hrg i
    by_cases hid : id = rgID
    · subst hid
      exact (hgroup rg hrg).2 i
    · rw [mem_iff_lookup, hkey id i hid, ← mem_iff_lookup]
      exact h.consistent.keys id rg (hother id hid ▸ hrg) i
  · intro key w hw
    by_cases hsame : key = (rgID, iface)
    · subst hsame
      exact hrange w hw
    · exact h.consistent.range key w (hkeys key hsame ▸ hw)
  · intro id hid
    rw [List.mem_cons, not_or] at hid
    refine (h.settled id hid.2).congr (hother id hid.1) fun i => ?_
    unfold debt
    rw [hkey id i hid.1]

/-- Taking a debt away, and the name off the list. -/
theorem SettledBut.erase {m : Manager} {affected : List ℤ} (h : SettledBut affected m) {rgID : ℤ} {iface : Bytes}
    {rg : Group} (hrg : m.groups rgID = some rg) :
    SettledBut (rgID :: affected)
      (setGroup { m with monitorWeights := m.monitorWeights.erase (rgID, iface) } rgID
        { rg with monitorFails := rg.monitorFails.erase iface }) := by
  have hnodup := h.consistent.nodup rgID rg hrg
  refine h.change (fun id hid => setGroup_ne _ hid) (fun key hkey => AList.lookup_erase_ne hkey)
    (fun w hw => ?_) (fun rg' hrg' => ?_)
  · have hnone : (m.monitorWeights.erase (rgID, iface)).lookup (rgID, iface) = none := AList.lookup_erase _ _
    exact absurd (hnone.symm.trans hw) (by simp)
  · rw [setGroup_same] at hrg'
    obtain rfl := Option.some.inj hrg'
    refine ⟨hnodup.erase iface, fun i => ?_⟩
    change i ∈ rg.monitorFails.erase iface ↔ (rgID, i) ∈ m.monitorWeights.erase (rgID, iface)
    rw [hnodup.mem_erase_iff, AList.mem_erase, h.consistent.keys rgID rg hrg i]
    simp

/-- Recording a debt, and the name on the list. -/
theorem SettledBut.insert {m : Manager} {affected : List ℤ} (h : SettledBut affected m) {rgID : ℤ} {iface : Bytes}
    {rg : Group} (hrg : m.groups rgID = some rg) (weight : ℤ) :
    SettledBut (rgID :: affected)
      (setGroup { m with monitorWeights := m.monitorWeights.insert (rgID, iface) (clampInterfaceMonitorWeight weight) }
        rgID { rg with monitorFails :=
          if rg.monitorFails.contains iface then rg.monitorFails
          else sortStrings (rg.monitorFails ++ [iface]) }) := by
  have hnodup := h.consistent.nodup rgID rg hrg
  refine h.change (fun id hid => setGroup_ne _ hid) (fun key hkey => AList.lookup_insert_ne hkey)
    (fun w hw => ?_) (fun rg' hrg' => ?_)
  · have hsome : (m.monitorWeights.insert (rgID, iface) (clampInterfaceMonitorWeight weight)).lookup (rgID, iface)
        = some (clampInterfaceMonitorWeight weight) := AList.lookup_insert _
    obtain rfl := Option.some.inj (hsome.symm.trans hw)
    exact clamp_range weight
  · rw [setGroup_same] at hrg'
    obtain rfl := Option.some.inj hrg'
    dsimp only
    have hkeys : ∀ i, (rgID, i) ∈ m.monitorWeights.insert (rgID, iface) (clampInterfaceMonitorWeight weight)
        ↔ i = iface ∨ i ∈ rg.monitorFails := by
      intro i
      rw [AList.mem_insert, h.consistent.keys rgID rg hrg i]
      simp
    by_cases hmem : iface ∈ rg.monitorFails
    · rw [if_pos (List.contains_iff_mem.mpr hmem)]
      refine ⟨hnodup, fun i => Iff.trans ?_ (hkeys i).symm⟩
      constructor
      · exact Or.inr
      · rintro (rfl | hi)
        · exact hmem
        · exact hi
    · rw [if_neg (by rw [List.contains_iff_mem]; exact hmem)]
      have hperm : List.Perm (sortStrings (rg.monitorFails ++ [iface])) (rg.monitorFails ++ [iface]) :=
        List.perm_insertionSort _ _
      refine ⟨hperm.nodup_iff.mpr ?_, fun i => Iff.trans ?_ (hkeys i).symm⟩
      · rw [List.nodup_append]
        refine ⟨hnodup, List.nodup_singleton _, ?_⟩
        rintro a ha b hb rfl
        rw [List.mem_singleton] at hb
        exact hmem (hb ▸ ha)
      · rw [hperm.mem_iff, List.mem_append, List.mem_singleton, or_comm]

theorem setMonitorWeight_inv {m : Manager} (h : SettledBut [] m) (rgID : ℤ) (iface : Bytes) (down : Bool)
    (weight : ℤ) (releases : ℤ → Option Release) :
    SettledBut [] (setMonitorWeight m rgID iface down weight releases) := by
  unfold setMonitorWeight
  cases hrg : m.groups rgID with
  | none => exact h
  | some rg =>
    cases down with
    | true => exact (h.insert hrg weight).refresh.elect releases
    | false => exact (h.erase hrg).refresh.elect releases

/-- A group that does not exist need not be refreshed. -/
theorem SettledBut.drop {m : Manager} {rgID : ℤ} {affected : List ℤ} (h : SettledBut (rgID :: affected) m)
    (hrg : m.groups rgID = none) : SettledBut affected m := by
  refine ⟨h.consistent, fun id hid => ?_⟩
  by_cases hsame : id = rgID
  · subst hsame
    intro rg hrg'
    exact absurd (hrg.symm.trans hrg') (by simp)
  · exact h.settled id (by simp [hsame, hid])

theorem clearStale_inv (desired : AList (fun _ : MonitorKey => ℤ)) {s : Manager × List ℤ}
    (h : SettledBut s.2 s.1) (key : MonitorKey) :
    SettledBut (clearStale desired s key).2 (clearStale desired s key).1 := by
  unfold clearStale
  split_ifs with hreserved hdesired
  · exact h
  · exact h
  · dsimp only
    cases hrg : s.1.groups key.1 with
    | some rg => exact h.erase hrg
    | none =>
      -- the debt of a group that is gone
      refine SettledBut.drop ?_ hrg
      refine h.change (fun _ _ => rfl) (fun _ hne => AList.lookup_erase_ne hne) (fun w hw => ?_) (fun rg hrg' => ?_)
      · exact absurd ((AList.lookup_erase key s.1.monitorWeights).symm.trans hw) (by simp)
      · exact absurd (hrg.symm.trans hrg') (by simp)

/-- Desired weights are in range. -/
theorem desiredWeights_range (cfg : ClusterConfig) (key : MonitorKey) (w : ℤ)
    (h : (desiredWeights cfg).lookup key = some w) : 0 ≤ w ∧ w ≤ 255 := by
  unfold desiredWeights at h
  generalize (cfg.flatMap fun rg => rg.2.map fun im => ((rg.1, im.1), im.2)) = monitors at h
  induction monitors using List.reverseRecOn with
  | nil => cases h
  | append_singleton monitors t ih =>
    rw [List.foldl_append, List.foldl_cons, List.foldl_nil] at h
    by_cases hkey : key = t.1
    · subst hkey
      rw [AList.lookup_insert] at h
      obtain rfl := Option.some.inj h
      exact clamp_range _
    · rw [AList.lookup_insert_ne hkey] at h
      exact ih h

theorem reapply_inv {s : Manager × List ℤ} (h : SettledBut s.2 s.1) {t : Sigma fun _ : MonitorKey => ℤ}
    (ht : 0 ≤ t.2 ∧ t.2 ≤ 255) : SettledBut (reapply s t).2 (reapply s t).1 := by
  unfold reapply
  cases hcur : s.1.monitorWeights.lookup t.1 with
  | none => exact h
  | some cur =>
    dsimp only
    split_ifs
    · exact h
    · have hmem : ∀ key, key ∈ s.1.monitorWeights.insert t.1 t.2 ↔ key ∈ s.1.monitorWeights := by
        intro key
        rw [AList.mem_insert]
        constructor
        · rintro (rfl | hkey)
          · rw [mem_iff_lookup, hcur]
            simp
          · exact hkey
        · exact Or.inr
      refine h.change (fun _ _ => rfl) (fun _ hne => AList.lookup_insert_ne hne) (fun w hw => ?_) (fun rg hrg => ?_)
      · obtain rfl := Option.some.inj ((AList.lookup_insert s.1.monitorWeights).symm.trans hw)
        exact ht
      · refine ⟨h.consistent.nodup _ rg hrg, fun i => ?_⟩
        exact (h.consistent.keys _ rg hrg i).trans (hmem _).symm

theorem foldl_refresh {affected : List ℤ} : ∀ {m : Manager}, SettledBut affected m →
    SettledBut [] (affected.foldl refreshWeight m) := by
  induction affected with
  | nil => exact fun h => h
  | cons rgID affected ih => exact fun h => ih h.refresh

theorem reconcileMonitorDebts_inv {m : Manager} (h : SettledBut [] m) (cfg : ClusterConfig) :
    SettledBut [] (reconcileMonitorDebts m cfg) := by
  unfold reconcileMonitorDebts
  dsimp only
  apply foldl_refresh
  have hcleared : ∀ (keys : List MonitorKey) (s : Manager × List ℤ), SettledBut s.2 s.1 →
      SettledBut (keys.foldl (clearStale (desiredWeights cfg)) s).2
        (keys.foldl (clearStale (desiredWeights cfg)) s).1 := by
    intro keys
    induction keys with
    | nil => exact fun s hs => hs
    | cons key keys ih => exact fun s hs => ih _ (clearStale_inv _ hs key)
  have hreapplied : ∀ (entries : List (Sigma fun _ : MonitorKey => ℤ)) (s : Manager × List ℤ),
      (∀ t ∈ entries, 0 ≤ t.2 ∧ t.2 ≤ 255) → SettledBut s.2 s.1 →
        SettledBut (entries.foldl reapply s).2 (entries.foldl reapply s).1 := by
    intro entries
    induction entries with
    | nil => exact fun s _ hs => hs
    | cons t entries ih =>
      intro s ht hs
      rw [List.forall_mem_cons] at ht
      exact ih _ ht.2 (reapply_inv hs ht.1)
  refine hreapplied _ _ (fun t ht => ?_) (hcleared _ _ h)
  exact desiredWeights_range cfg t.1 t.2 (AList.mem_lookup_iff.mpr ht)

theorem forceSecondary_inv {m : Manager} (h : SettledBut [] m) (active : ℤ → Bool) :
    SettledBut [] (forceSecondary m active) := by
  have hgroups : ∀ id rg', (forceSecondary m active).groups id = some rg' →
      ∃ rg, m.groups id = some rg ∧ rg'.monitorFails = rg.monitorFails
        ∧ (rg' = rg ∨ rg'.weight = 0 ∧ rg'.forcedSecondary = true) := by
    intro id rg' hrg'
    obtain ⟨rg, hrg, rfl⟩ := Option.map_eq_some_iff.mp hrg'
    refine ⟨rg, hrg, ?_⟩
    split_ifs
    · exact ⟨rfl, Or.inr ⟨rfl, rfl⟩⟩
    · exact ⟨rfl, Or.inl rfl⟩
  refine ⟨⟨?_, ?_, h.consistent.range⟩, ?_⟩
  · intro id rg' hrg'
    obtain ⟨rg, hrg, hfails, -⟩ := hgroups id rg' hrg'
    rw [hfails]
    exact h.consistent.nodup id rg hrg
  · intro id rg' hrg'
    obtain ⟨rg, hrg, hfails, -⟩ := hgroups id rg' hrg'
    rw [hfails]
    exact h.consistent.keys id rg hrg
  · intro id hid rg' hrg'
    obtain ⟨rg, hrg, -, rfl | ⟨hweight, hforced⟩⟩ := hgroups id rg' hrg'
    · exact h.settled id hid rg' hrg
    · rw [hweight, debtDerivedWeight, if_pos hforced]

theorem SettledBut.close {m : Manager} {id : ℤ} (h : SettledBut [id] m) (hid : Settled m id) : SettledBut [] m := by
  refine ⟨h.consistent, fun id' _ => ?_⟩
  by_cases hsame : id' = id
  · exact hsame ▸ hid
  · exact h.settled id' (by simp [hsame])

/-- Debts are recorded for groups that exist. -/
def Owned (m : Manager) : Prop := ∀ key ∈ m.monitorWeights, m.groups key.1 ≠ none

/-- A group that is added starts settled. -/
theorem addGroup_inv {m : Manager} (h : SettledBut [] m) (howned : Owned m) (t : ℤ × Bool) :
    SettledBut [] (addGroup m t) ∧ Owned (addGroup m t) := by
  obtain ⟨id, clustered⟩ := t
  unfold addGroup
  dsimp only
  cases hrg : m.groups id with
  | some rg => exact ⟨h, howned⟩
  | none =>
    have hfree : ∀ i, (id, i) ∉ m.monitorWeights := fun i hi => howned (id, i) hi hrg
    dsimp only
    cases clustered with
    | false =>
      rw [if_neg Bool.false_ne_true]
      constructor
      · refine SettledBut.close (h.change (fun _ hne => setGroup_ne _ hne) (fun (key : MonitorKey) (_ : key ≠ (id, [])) => rfl)
          (fun w hw => h.consistent.range _ w hw) (fun rg hrg' => ?_)) (fun rg hrg' => ?_)
        · rw [setGroup_same] at hrg'
          obtain rfl := Option.some.inj hrg'
          exact ⟨List.nodup_nil, fun i => iff_of_false List.not_mem_nil (hfree i)⟩
        · rw [setGroup_same] at hrg'
          obtain rfl := Option.some.inj hrg'
          rfl
      · intro key hkey
        by_cases hsame : key.1 = id
        · rw [hsame, setGroup_same]
          simp
        · rw [setGroup_ne _ hsame]
          exact howned key hkey
    | true =>
      rw [if_pos rfl]
      constructor
      · refine SettledBut.close (h.change (fun _ hne => setGroup_ne _ hne) (fun _ hne => AList.lookup_insert_ne hne)
          (fun w hw => ?_) (fun rg hrg' => ?_)) (fun rg hrg' => ?_)
        · obtain rfl := Option.some.inj ((AList.lookup_insert m.monitorWeights).symm.trans hw)
          decide
        · obtain rfl := Option.some.inj ((setGroup_same m id _).symm.trans hrg')
          refine ⟨List.nodup_singleton _, fun i => ?_⟩
          rw [List.mem_singleton]
          change i = dataplaneArmMonitorIface
            ↔ (id, i) ∈ m.monitorWeights.insert (id, dataplaneArmMonitorIface) dataplaneArmMonitorCost
          rw [AList.mem_insert]
          simp [hfree i]
        · obtain rfl := Option.some.inj ((setGroup_same m id _).symm.trans hrg')
          -- the one debt is the arm cost
          change rgWeightFromDebt dataplaneArmMonitorCost = rgWeightFromDebt _
          congr 1
          unfold monitorDebtTotal addLost debt
          simp only [List.foldl_cons, List.foldl_nil, AList.lookup_insert, Option.getD_some]
          decide
      · intro key hkey
        by_cases hsame : key.1 = id
        · rw [hsame]
          exact fun hnone => absurd ((setGroup_same m id _).symm.trans hnone) (by simp)
        · intro hnone
          rcases (AList.mem_insert m.monitorWeights).mp hkey with rfl | hkey
          · exact hsame rfl
          · exact howned key hkey ((setGroup_ne _ hsame).symm.trans hnone)

/-- **Every call keeps the invariant.** -/
theorem call_inv {m : Manager} (h : SettledBut [] m) (c : Call) : SettledBut [] (m.call c) := by
  cases c with
  | setMonitorWeight rgID iface down weight releases => exact setMonitorWeight_inv h rgID iface down weight releases
  | reconcileMonitorDebts cfg => exact reconcileMonitorDebts_inv h cfg
  | forceSecondary active => exact forceSecondary_inv h active

theorem configured_inv (groups : List (ℤ × Bool)) : SettledBut [] (configured groups) := by
  have hboth : SettledBut [] (configured groups) ∧ Owned (configured groups) := by
    unfold configured
    refine Runs.run_invariant (P := fun m => SettledBut [] m ∧ Owned m) ⟨⟨⟨?_, ?_, ?_⟩, ?_⟩, ?_⟩
      (fun m t h => addGroup_inv h.1 h.2 t) groups
    · rintro id rg ⟨⟩
    · rintro id rg ⟨⟩
    · rintro key w ⟨⟩
    · rintro id - rg ⟨⟩
    · rintro key hkey
      exact absurd hkey (AList.notMem_empty key)
  exact hboth.1

/-- The manager after a list of calls. -/
def after (groups : List (ℤ × Bool)) (calls : List Call) : Manager :=
  Runs.run Manager.call (configured groups) calls

theorem after_inv (groups : List (ℤ × Bool)) (calls : List Call) : SettledBut [] (after groups calls) :=
  Runs.run_invariant (configured_inv groups) (fun _ c h => call_inv h c) calls

/-! ## The weight in terms of the debts -/

/-- The monitors of a group that have a debt and are not holds. -/
def ordinaryMonitors (m : Manager) (id : ℤ) : Finset Bytes :=
  ((m.monitorWeights.keys.filter fun key => key.1 = id && !isHold key.2).map Prod.snd).toFinset

/-- The debt of a group: ordinary debts add up, and of the two holds the larger counts. -/
def totalDebt (m : Manager) (id : ℤ) : ℤ :=
  ∑ iface ∈ ordinaryMonitors m id, debt m id iface
    + max (debt m id dataplaneArmMonitorIface) (debt m id startupSyncHoldMonitorIface)

/-- The two running totals of `monitorDebtTotalLocked`. -/
theorem foldl_addLost (d : Bytes → ℤ) : ∀ (fails : List Bytes) (total hold : ℤ),
    (fails.foldl (addLost d) (total, hold)).1 = total + ((fails.filter (!isHold ·)).map d).sum
      ∧ hold ≤ (fails.foldl (addLost d) (total, hold)).2
      ∧ (∀ i ∈ fails, isHold i = true → d i ≤ (fails.foldl (addLost d) (total, hold)).2)
      ∧ ((fails.foldl (addLost d) (total, hold)).2 = hold
        ∨ ∃ i ∈ fails, isHold i = true ∧ (fails.foldl (addLost d) (total, hold)).2 = d i) := by
  intro fails
  induction fails with
  | nil => simp
  | cons i fails ih =>
    intro total hold
    rw [List.foldl_cons]
    by_cases hi : isHold i = true
    · have hstep : addLost d (total, hold) i = (total, max hold (d i)) := by
        rw [addLost, if_pos hi, max_def]
        split_ifs <;> simp_all <;> omega
      rw [hstep]
      obtain ⟨hsum, hle, hall, hmax⟩ := ih total (max hold (d i))
      refine ⟨by rw [hsum, List.filter_cons_of_neg (by simp [hi])], (le_max_left _ _).trans hle, ?_, ?_⟩
      · intro j hj hhold
        rcases List.mem_cons.mp hj with rfl | hj
        · exact (le_max_right _ _).trans hle
        · exact hall j hj hhold
      · rcases hmax with hmax | ⟨j, hj, hhold, hmax⟩
        · rw [hmax]
          rcases max_choice hold (d i) with hchoice | hchoice
          · exact Or.inl hchoice
          · exact Or.inr ⟨i, List.mem_cons_self, hi, hchoice⟩
        · exact Or.inr ⟨j, List.mem_cons_of_mem _ hj, hhold, hmax⟩
    · have hstep : addLost d (total, hold) i = (total + d i, hold) := by
        rw [addLost, if_neg hi]
      rw [hstep]
      obtain ⟨hsum, hle, hall, hmax⟩ := ih (total + d i) hold
      refine ⟨?_, hle, ?_, ?_⟩
      · rw [hsum, List.filter_cons_of_pos (by simpa using hi), List.map_cons, List.sum_cons, add_assoc]
      · intro j hj hhold
        rcases List.mem_cons.mp hj with rfl | hj
        · exact absurd hhold hi
        · exact hall j hj hhold
      · rcases hmax with hmax | ⟨j, hj, hhold, hmax⟩
        · exact Or.inl hmax
        · exact Or.inr ⟨j, List.mem_cons_of_mem _ hj, hhold, hmax⟩

/-- The failure list gives the debt of the map. -/
theorem monitorDebtTotal_eq {m : Manager} (h : Consistent m) {id : ℤ} {rg : Group} (hrg : m.groups id = some rg) :
    monitorDebtTotal m id rg.monitorFails = totalDebt m id := by
  have hnodup := h.nodup id rg hrg
  have hkeys := h.keys id rg hrg
  have hpos : ∀ i, 0 ≤ debt m id i := by
    intro i
    unfold debt
    cases hw : m.monitorWeights.lookup (id, i) with
    | none => simp
    | some w => exact (h.range _ w hw).1
  have habsent : ∀ i, i ∉ rg.monitorFails → debt m id i = 0 := by
    intro i hi
    rw [hkeys, mem_iff_lookup, not_not] at hi
    rw [debt, hi]
    rfl
  obtain ⟨hsum, hzero, hall, hmax⟩ := foldl_addLost (debt m id) rg.monitorFails 0 0
  unfold monitorDebtTotal totalDebt
  dsimp only
  congr 1
  · rw [hsum, zero_add, ← List.sum_toFinset _ (hnodup.filter _)]
    congr 1
    ext i
    unfold ordinaryMonitors
    simp only [List.mem_toFinset, List.mem_filter, List.mem_map, hkeys, AList.mem_keys]
    constructor
    · rintro ⟨hi, hhold⟩
      exact ⟨(id, i), ⟨hi, by simpa using hhold⟩, rfl⟩
    · rintro ⟨⟨id', i'⟩, ⟨hi, hboth⟩, rfl⟩
      simp only [Bool.and_eq_true, decide_eq_true_eq] at hboth
      obtain ⟨rfl, hhold⟩ := hboth
      exact ⟨hi, hhold⟩
  · have hle : ∀ i, isHold i = true → debt m id i ≤ (rg.monitorFails.foldl (addLost (debt m id)) (0, 0)).2 := by
      intro i hhold
      by_cases hi : i ∈ rg.monitorFails
      · exact hall i hi hhold
      · rw [habsent i hi]
        exact hzero
    apply le_antisymm
    · rcases hmax with hmax | ⟨i, -, hhold, hmax⟩
      · rw [hmax]
        exact le_max_of_le_left (hpos _)
      · rw [hmax]
        unfold isHold at hhold
        rcases Bool.or_eq_true_iff.mp hhold with hi | hi
        · rw [of_decide_eq_true hi]
          exact le_max_left _ _
        · rw [of_decide_eq_true hi]
          exact le_max_right _ _
    · exact max_le (hle _ (by decide)) (hle _ (by decide))

/-! ## Debts as the last value set -/

/-- What a call does to one debt: a monitor going down or up sets it, and a reconciliation
sets it to the desired weight or clears it. -/
def Call.effect (known : ℤ → Bool) (key : MonitorKey) (cur : Option ℤ) : Call → Option ℤ
  | .setMonitorWeight rgID iface down weight _ =>
    if key = (rgID, iface) ∧ known rgID = true then
      (if down then some (clampInterfaceMonitorWeight weight) else none)
    else cur
  | .reconcileMonitorDebts cfg =>
    match (desiredWeights cfg).lookup key with
    | some w => cur.map fun _ => w
    | none => if isReservedMonitorName key.2 then cur else none
  | .forceSecondary _ => cur

/-- The last value set for a monitor by a list of calls. -/
def lastValue (known : ℤ → Bool) (key : MonitorKey) (start : Option ℤ) (calls : List Call) : Option ℤ :=
  calls.foldl (fun cur c => c.effect known key cur) start

@[simp] theorem refreshWeight_monitorWeights (m : Manager) (rgID : ℤ) :
    (refreshWeight m rgID).monitorWeights = m.monitorWeights := by
  unfold refreshWeight
  split <;> rfl

theorem foldl_refreshWeight_monitorWeights (affected : List ℤ) : ∀ m : Manager,
    (affected.foldl refreshWeight m).monitorWeights = m.monitorWeights := by
  induction affected with
  | nil => exact fun m => rfl
  | cons rgID affected ih =>
    intro m
    rw [List.foldl_cons, ih, refreshWeight_monitorWeights]

theorem lookup_clearStale (desired : AList (fun _ : MonitorKey => ℤ)) (s : Manager × List ℤ) (key k : MonitorKey) :
    (clearStale desired s key).1.monitorWeights.lookup k
      = if k = key ∧ isReservedMonitorName key.2 = false ∧ key ∉ desired then none
        else s.1.monitorWeights.lookup k := by
  unfold clearStale
  by_cases hreserved : isReservedMonitorName key.2 = true
  · rw [if_pos hreserved, if_neg (by simp [hreserved])]
  rw [if_neg hreserved]
  by_cases hdesired : key ∈ desired
  · rw [if_pos hdesired, if_neg (by simp [hdesired])]
  rw [if_neg hdesired]
  by_cases hk : k = key
  · subst hk
    rw [if_pos ⟨rfl, by simpa using hreserved, hdesired⟩]
    dsimp only
    cases s.1.groups k.1 with
    | none => exact AList.lookup_erase _ _
    | some rg => exact AList.lookup_erase _ _
  · rw [if_neg (fun h => hk h.1)]
    dsimp only
    cases s.1.groups key.1 with
    | none => exact AList.lookup_erase_ne hk
    | some rg => exact AList.lookup_erase_ne hk

theorem lookup_foldl_clearStale (desired : AList (fun _ : MonitorKey => ℤ)) (k : MonitorKey)
    (keys : List MonitorKey) : ∀ s : Manager × List ℤ,
    (keys.foldl (clearStale desired) s).1.monitorWeights.lookup k
      = if k ∈ keys ∧ isReservedMonitorName k.2 = false ∧ k ∉ desired then none
        else s.1.monitorWeights.lookup k := by
  induction keys with
  | nil => simp
  | cons key keys ih =>
    intro s
    rw [List.foldl_cons, ih, lookup_clearStale]
    by_cases hk : k = key
    · subst hk
      by_cases hstale : isReservedMonitorName k.2 = false ∧ k ∉ desired
      · simp [hstale]
      · rw [if_neg (fun h => hstale h.2), if_neg (fun h => hstale h.2), if_neg (fun h => hstale h.2)]
    · simp [hk]

theorem lookup_reapply (s : Manager × List ℤ) (t : Sigma fun _ : MonitorKey => ℤ) (k : MonitorKey) :
    (reapply s t).1.monitorWeights.lookup k
      = if k = t.1 then (s.1.monitorWeights.lookup k).map fun _ => t.2 else s.1.monitorWeights.lookup k := by
  unfold reapply
  by_cases hk : k = t.1
  · subst hk
    rw [if_pos rfl]
    cases hcur : s.1.monitorWeights.lookup t.1 with
    | none => exact hcur
    | some cur =>
      dsimp only
      split_ifs with hsame
      · rw [hcur, hsame]
        rfl
      · exact AList.lookup_insert _
  · rw [if_neg hk]
    cases s.1.monitorWeights.lookup t.1 with
    | none => rfl
    | some cur =>
      dsimp only
      split_ifs
      · rfl
      · exact AList.lookup_insert_ne hk

theorem lookup_foldl_reapply (k : MonitorKey) : ∀ (entries : List (Sigma fun _ : MonitorKey => ℤ))
    (s : Manager × List ℤ), entries.NodupKeys →
    (entries.foldl reapply s).1.monitorWeights.lookup k
      = match entries.dlookup k with
        | some w => (s.1.monitorWeights.lookup k).map fun _ => w
        | none => s.1.monitorWeights.lookup k := by
  intro entries
  induction entries with
  | nil => exact fun s _ => rfl
  | cons t entries ih =>
    intro s hnodup
    rw [List.nodupKeys_cons] at hnodup
    rw [List.foldl_cons, ih _ hnodup.2, lookup_reapply]
    by_cases hk : k = t.1
    · subst hk
      rw [if_pos rfl, List.dlookup_eq_none.mpr hnodup.1]
      obtain ⟨key, w⟩ := t
      rw [List.dlookup_cons_eq]
    · obtain ⟨key, w⟩ := t
      rw [if_neg hk, List.dlookup_cons_ne _ _ hk]

/-- **A call acts on each debt by itself.** -/
theorem lookup_call (m : Manager) (c : Call) (key : MonitorKey) :
    (m.call c).monitorWeights.lookup key
      = c.effect (fun id => (m.groups id).isSome) key (m.monitorWeights.lookup key) := by
  cases c with
  | forceSecondary active => rfl
  | setMonitorWeight rgID iface down weight releases =>
    have hsaved : ∀ m' : Manager, (recalcWeight m' rgID releases).monitorWeights = m'.monitorWeights :=
      fun m' => refreshWeight_monitorWeights m' rgID
    unfold Manager.call Call.effect setMonitorWeight
    dsimp only
    rcases Option.eq_none_or_eq_some (m.groups rgID) with hrg | ⟨rg, hrg⟩
    · rw [if_neg (by simp [hrg]), hrg]
    by_cases hkey : key = (rgID, iface)
    · subst hkey
      rw [if_pos ⟨rfl, by simp [hrg]⟩, hrg]
      cases down with
      | true =>
        dsimp only
        rw [if_pos rfl, if_pos rfl, hsaved]
        exact AList.lookup_insert _
      | false =>
        dsimp only
        rw [if_neg Bool.false_ne_true, if_neg Bool.false_ne_true, hsaved]
        exact AList.lookup_erase _ _
    · rw [if_neg (fun h => hkey h.1), hrg]
      cases down with
      | true =>
        dsimp only
        rw [if_pos rfl, hsaved]
        exact AList.lookup_insert_ne hkey
      | false =>
        dsimp only
        rw [if_neg Bool.false_ne_true, hsaved]
        exact AList.lookup_erase_ne hkey
  | reconcileMonitorDebts cfg =>
    unfold Manager.call Call.effect reconcileMonitorDebts
    dsimp only
    rw [foldl_refreshWeight_monitorWeights, lookup_foldl_reapply _ _ _ (desiredWeights cfg).nodupKeys,
      lookup_foldl_clearStale]
    change (match (desiredWeights cfg).lookup key with
        | some w => Option.map (fun _ => w) _
        | none => _) = _
    cases hdesired : (desiredWeights cfg).lookup key with
    | some w =>
      have hmem : key ∈ desiredWeights cfg := by
        rw [mem_iff_lookup, hdesired]
        simp
      dsimp only
      rw [if_neg (fun h => h.2.2 hmem)]
    | none =>
      have hmem : key ∉ desiredWeights cfg := AList.lookup_eq_none.mp hdesired
      dsimp only
      cases hreserved : isReservedMonitorName key.2 with
      | true => rw [if_neg (by simp), if_pos rfl]
      | false =>
        rw [if_neg Bool.false_ne_true]
        by_cases hkey : key ∈ m.monitorWeights.keys
        · rw [if_pos ⟨hkey, rfl, hmem⟩]
        · rw [if_neg (fun h => hkey h.1)]
          exact AList.lookup_eq_none.mpr hkey

/-- The groups two managers have are the same. -/
def SameGroups (m m' : Manager) : Prop := ∀ id, (m'.groups id).isSome = (m.groups id).isSome

theorem SameGroups.trans {m m' m'' : Manager} (h : SameGroups m m') (h' : SameGroups m' m'') : SameGroups m m'' :=
  fun id => (h' id).trans (h id)

theorem sameGroups_setGroup {m m' : Manager} {rgID : ℤ} {rg : Group} (hrg : m.groups rgID = some rg)
    (hsame : m'.groups = m.groups) (rg' : Group) : SameGroups m (setGroup m' rgID rg') := by
  intro id
  by_cases hid : id = rgID
  · subst hid
    rw [setGroup_same, hrg]
    rfl
  · rw [setGroup_ne _ hid, hsame]

theorem sameGroups_refreshWeight (m : Manager) (rgID : ℤ) : SameGroups m (refreshWeight m rgID) := by
  unfold refreshWeight
  cases hrg : m.groups rgID with
  | none => exact fun _ => rfl
  | some rg => exact sameGroups_setGroup hrg rfl _

theorem sameGroups_recalcWeight (m : Manager) (rgID : ℤ) (releases : ℤ → Option Release) :
    SameGroups m (recalcWeight m rgID releases) :=
  (sameGroups_refreshWeight m rgID).trans fun _ => Option.isSome_map

/-- A fold of steps that keep the groups keeps them. -/
theorem sameGroups_foldl {β σ : Type} (managerOf : σ → Manager) {step : σ → β → σ}
    (hstep : ∀ s b, SameGroups (managerOf s) (managerOf (step s b))) (items : List β) :
    ∀ s, SameGroups (managerOf s) (managerOf (items.foldl step s)) := by
  induction items with
  | nil => exact fun _ _ => rfl
  | cons b items ih => exact fun s => (hstep s b).trans (ih _)

/-- No call adds or removes a group. -/
theorem known_call (m : Manager) (c : Call) : SameGroups m (m.call c) := by
  cases c with
  | forceSecondary active => exact fun _ => Option.isSome_map
  | setMonitorWeight rgID iface down weight releases =>
    unfold Manager.call setMonitorWeight
    dsimp only
    cases hrg : m.groups rgID with
    | none => exact fun _ => rfl
    | some rg =>
      dsimp only
      cases down with
      | true =>
        rw [if_pos rfl]
        refine SameGroups.trans ?_ (sameGroups_recalcWeight _ rgID releases)
        exact sameGroups_setGroup hrg rfl _
      | false =>
        rw [if_neg Bool.false_ne_true]
        refine SameGroups.trans ?_ (sameGroups_recalcWeight _ rgID releases)
        exact sameGroups_setGroup hrg rfl _
  | reconcileMonitorDebts cfg =>
    unfold Manager.call reconcileMonitorDebts
    dsimp only
    have hclear : ∀ (s : Manager × List ℤ) key, SameGroups s.1 (clearStale (desiredWeights cfg) s key).1 := by
      intro s key
      unfold clearStale
      split_ifs
      · exact fun _ => rfl
      · exact fun _ => rfl
      · dsimp only
        cases hrg : s.1.groups key.1 with
        | none => exact fun _ => rfl
        | some rg => exact sameGroups_setGroup hrg rfl _
    have hreapply : ∀ (s : Manager × List ℤ) t, SameGroups s.1 (reapply s t).1 := by
      intro s t
      unfold reapply
      split
      · exact fun _ => rfl
      · split_ifs <;> exact fun _ => rfl
    refine SameGroups.trans ?_ (sameGroups_foldl id sameGroups_refreshWeight _ _)
    exact (sameGroups_foldl Prod.fst hclear _ (m, [])).trans (sameGroups_foldl Prod.fst hreapply _ _)

theorem lookup_after (groups : List (ℤ × Bool)) (calls : List Call) (key : MonitorKey) :
    (after groups calls).monitorWeights.lookup key
      = lastValue (fun id => ((configured groups).groups id).isSome) key ((configured groups).monitorWeights.lookup key)
        calls := by
  have hboth : (∀ id, ((after groups calls).groups id).isSome = ((configured groups).groups id).isSome)
      ∧ (after groups calls).monitorWeights.lookup key
        = lastValue (fun id => ((configured groups).groups id).isSome) key
          ((configured groups).monitorWeights.lookup key) calls := by
    induction calls using List.reverseRecOn with
    | nil => exact ⟨fun _ => rfl, rfl⟩
    | append_singleton calls c ih =>
      unfold after lastValue at *
      rw [Runs.run_snoc, List.foldl_append, List.foldl_cons, List.foldl_nil]
      refine ⟨fun id => (known_call _ c id).trans (ih.1 id), ?_⟩
      rw [lookup_call, ih.2, show (fun id => _) = _ from funext ih.1]
  exact hboth.2

/-- The debt of a group is a function of the debts of its monitors. -/
theorem totalDebt_congr {m m' : Manager}
    (h : ∀ key, m.monitorWeights.lookup key = m'.monitorWeights.lookup key) (id : ℤ) :
    totalDebt m id = totalDebt m' id := by
  have hdebt : debt m id = debt m' id := by
    funext iface
    rw [debt, debt, h]
  have hmonitors : ordinaryMonitors m id = ordinaryMonitors m' id := by
    ext iface
    unfold ordinaryMonitors
    simp only [List.mem_toFinset, List.mem_map, List.mem_filter, ← AList.mem_keys, mem_iff_lookup, h]
  rw [totalDebt, totalDebt, hdebt, hmonitors]

/-- **The three records of monitor debt agree**, after every sequence of calls: the failure
list of a group has no duplicates and names exactly its monitors with a debt, and its
weight is in 0..255 and is what the debts leave (0 under a drain). The weight depends only
on the last value set for each monitor. -/
theorem monitorDebt_agrees (groups : List (ℤ × Bool)) (calls : List Call) :
    (∀ id rg, (after groups calls).groups id = some rg →
      rg.monitorFails.Nodup
      ∧ (∀ iface, iface ∈ rg.monitorFails ↔ (id, iface) ∈ (after groups calls).monitorWeights)
      ∧ 0 ≤ rg.weight ∧ rg.weight ≤ 255
      ∧ rg.weight = if rg.forcedSecondary then 0 else rgWeightFromDebt (totalDebt (after groups calls) id))
    ∧ ∀ calls',
      (∀ key, lastValue (fun id => ((configured groups).groups id).isSome) key
          ((configured groups).monitorWeights.lookup key) calls
        = lastValue (fun id => ((configured groups).groups id).isSome) key
          ((configured groups).monitorWeights.lookup key) calls') →
      ∀ id rg rg', (after groups calls).groups id = some rg → (after groups calls').groups id = some rg' →
        rg.forcedSecondary = rg'.forcedSecondary → rg.weight = rg'.weight := by
  have hweight : ∀ calls id rg, (after groups calls).groups id = some rg →
      rg.weight = if rg.forcedSecondary then 0 else rgWeightFromDebt (totalDebt (after groups calls) id) := by
    intro calls id rg hrg
    have hinv := after_inv groups calls
    rw [hinv.settled id List.not_mem_nil rg hrg, debtDerivedWeight, monitorDebtTotal_eq hinv.consistent hrg]
  constructor
  · intro id rg hrg
    have hinv := (after_inv groups calls).consistent
    have hrange : 0 ≤ rg.weight ∧ rg.weight ≤ 255 := by
      rw [hweight calls id rg hrg]
      unfold rgWeightFromDebt maxRedundancyGroupWeight
      dsimp only
      split_ifs <;> omega
    exact ⟨hinv.nodup id rg hrg, hinv.keys id rg hrg, hrange.1, hrange.2, hweight calls id rg hrg⟩
  · intro calls' hlast id rg rg' hrg hrg' hforced
    have hlookup : ∀ key, (after groups calls).monitorWeights.lookup key
        = (after groups calls').monitorWeights.lookup key := by
      intro key
      rw [lookup_after, lookup_after, hlast]
    rw [hweight calls id rg hrg, hweight calls' id rg' hrg', hforced, totalDebt_congr hlookup]

/-- A new group of a cluster recovers its full weight when its dataplane is armed. -/
theorem monitorDebt_agrees_armed :
    (after [(1, true)] [.setMonitorWeight 1 dataplaneArmMonitorIface false 0 fun _ => none]).groups 1
        = some ⟨255, [], false, false⟩
      ∧ (255 : ℤ) = rgWeightFromDebt
        (totalDebt (after [(1, true)] [.setMonitorWeight 1 dataplaneArmMonitorIface false 0 fun _ => none]) 1) := by
  have hrg : (after [(1, true)] [.setMonitorWeight 1 dataplaneArmMonitorIface false 0 fun _ => none]).groups 1
      = some ⟨255, [], false, false⟩ := by decide +kernel
  exact ⟨hrg, ((monitorDebt_agrees [(1, true)] [.setMonitorWeight 1 dataplaneArmMonitorIface false 0 fun _ => none]).1
    1 _ hrg).2.2.2.2⟩

/-- The two holds do not add up: a new group under a startup hold owes twice 254, and
keeps weight 1. -/
theorem weight_ne_summed :
    ((after [(1, true)] [.setMonitorWeight 1 startupSyncHoldMonitorIface true 254 fun _ => none]).groups 1).map
        Group.weight = some 1
      ∧ (after [(1, true)] [.setMonitorWeight 1 startupSyncHoldMonitorIface true 254 fun _ => none]).monitorWeights.keys
        = [(1, startupSyncHoldMonitorIface), (1, dataplaneArmMonitorIface)]
      ∧ rgWeightFromDebt
        (debt (after [(1, true)] [.setMonitorWeight 1 startupSyncHoldMonitorIface true 254 fun _ => none]) 1
          startupSyncHoldMonitorIface
        + debt (after [(1, true)] [.setMonitorWeight 1 startupSyncHoldMonitorIface true 254 fun _ => none]) 1
          dataplaneArmMonitorIface) = 0 := by
  decide +kernel

end Xpf.MonitorDebt
