/-
The MIB view of the SNMP agent: the object tables and `ifSnapshot.mibOIDs`,
`findNextOIDSnap` and `getOIDValueSnap` of `pkg/snmp/agent.go`.

The view of one request is a list: the scalars, and for each column of the two interface
tables one object for each interface, in the order of the interface indices. That list is
sorted, so the successor of an identifier is found by binary search in it; what it stands
for is the set of objects the agent serves.

The interface list is read once for a request. What else a value depends on (the
configuration, the host name, the clock) is read again for each object, so it is an
argument of its own here.
-/
import Xpf.SnmpBer
import Xpf.LittleEndian
import Xpf.Bisect
import Mathlib.Data.List.Sort
import Mathlib.Order.Bounds.Basic

set_option autoImplicit false

namespace Xpf.SnmpMib

open GoStrings SnmpBer

/-! ## Objects -/

def oidSysDescr : Oid := [1, 3, 6, 1, 2, 1, 1, 1, 0]
def oidSysObjectID : Oid := [1, 3, 6, 1, 2, 1, 1, 2, 0]
def oidSysUpTime : Oid := [1, 3, 6, 1, 2, 1, 1, 3, 0]
def oidSysContact : Oid := [1, 3, 6, 1, 2, 1, 1, 4, 0]
def oidSysName : Oid := [1, 3, 6, 1, 2, 1, 1, 5, 0]
def oidSysLocation : Oid := [1, 3, 6, 1, 2, 1, 1, 6, 0]
def oidIfNumber : Oid := [1, 3, 6, 1, 2, 1, 2, 1, 0]

def oidIfTablePrefix : Oid := [1, 3, 6, 1, 2, 1, 2, 2, 1]
def oidIfXTablePrefix : Oid := [1, 3, 6, 1, 2, 1, 31, 1, 1, 1]

def staticOIDs : List Oid :=
  [oidSysDescr, oidSysObjectID, oidSysUpTime, oidSysContact, oidSysName, oidSysLocation, oidIfNumber]

def ifTableColumns : List ℤ := [1, 2, 3, 4, 5, 7, 8, 9, 10, 11, 12, 13, 14, 15, 16, 17, 18, 19, 20]
def ifXTableColumns : List ℤ := [1, 2, 3, 4, 5, 6, 7, 10, 11, 15, 18]

/-- The two tables, each with its columns. -/
def tables : List (Oid × List ℤ) := [(oidIfTablePrefix, ifTableColumns), (oidIfXTablePrefix, ifXTableColumns)]

def tagCounter32 : UInt8 := 0x41
def tagGauge32 : UInt8 := 0x42
def tagTimeTicks : UInt8 := 0x43
def tagCounter64 : UInt8 := 0x46

/-- `IfData`. -/
structure IfData where
  ifIndex : Int64
  ifDescr : Bytes
  ifType : Int64
  ifMtu : Int64
  ifSpeed : UInt32
  adminStatus : Int64
  operStatus : Int64
  inOctets : UInt32
  outOctets : UInt32
  lastChange : UInt32
  inUcastPkts : UInt32
  inNonUcastPkts : UInt32
  inErrors : UInt32
  inDiscards : UInt32
  inUnknownProtos : UInt32
  outUcastPkts : UInt32
  outNonUcastPkts : UInt32
  outErrors : UInt32
  outDiscards : UInt32
  ifName : Bytes
  inMulticastPkts : UInt32
  inBroadcastPkts : UInt32
  outMulticastPkts : UInt32
  outBroadcastPkts : UInt32
  hcInOctets : UInt64
  hcInUcastPkts : UInt64
  hcOutOctets : UInt64
  hcOutUcastPkts : UInt64
  ifHighSpeed : UInt32
  ifAlias : Bytes

/-- What the agent reads of its configuration. -/
structure SnmpConfig where
  description : Bytes
  contact : Bytes
  location : Bytes

/-- What one lookup of a value reads besides the interfaces: the configuration (there may
be none), the host name (asking for it may fail) and the time since the start. -/
structure Reading where
  cfg : Option SnmpConfig
  hostname : Option Bytes
  uptimeMillis : ℤ

/-! ## Values -/

/-- Leading zeros go, but one octet stays. -/
def stripZeros : Bytes → Bytes
  | [] => []
  | [b] => [b]
  | b :: c :: bs => if b = 0 then stripZeros (c :: bs) else b :: c :: bs

/-- The contents of an unsigned number, from its octets. -/
def unsignedContents (buf : Bytes) : Bytes :=
  let buf := stripZeros buf
  if highBit buf then 0 :: buf else buf

/-- `berEncodeCounter32`. -/
def berEncodeCounter32 (val : UInt32) : Bytes := unsignedContents (LittleEndian.putUint32 val).reverse

/-- `berEncodeGauge32`. -/
def berEncodeGauge32 (val : UInt32) : Bytes := berEncodeCounter32 val

/-- `berEncodeCounter64`. -/
def berEncodeCounter64 (val : UInt64) : Bytes := unsignedContents (LittleEndian.putUint64 val).reverse

/-- `berEncodeTimeTicks`. -/
def berEncodeTimeTicks (hundredths : ℤ) : Bytes :=
  unsignedContents (LittleEndian.putUint32 (UInt32.ofInt hundredths)).reverse

/-- `oidHasPrefix`. -/
def oidHasPrefix (oid front : Oid) : Bool := front.isPrefixOf oid

/-- `getIfTableValue`: nothing for an interface or a column there is not. -/
def getIfTableValue (col ifIdx : ℤ) (ifaces : List IfData) : Option (Bytes × UInt8) :=
  match ifaces.find? fun iface => iface.ifIndex.toInt = ifIdx with
  | none => none
  | some iface =>
    match col with
    | 1 => some (berEncodeIntegerValue iface.ifIndex, tagInteger)
    | 2 => some (iface.ifDescr, tagOctetString)
    | 3 => some (berEncodeIntegerValue iface.ifType, tagInteger)
    | 4 => some (berEncodeIntegerValue iface.ifMtu, tagInteger)
    | 5 => some (berEncodeGauge32 iface.ifSpeed, tagGauge32)
    | 7 => some (berEncodeIntegerValue iface.adminStatus, tagInteger)
    | 8 => some (berEncodeIntegerValue iface.operStatus, tagInteger)
    | 9 => some (berEncodeTimeTicks iface.lastChange.toNat, tagTimeTicks)
    | 10 => some (berEncodeCounter32 iface.inOctets, tagCounter32)
    | 11 => some (berEncodeCounter32 iface.inUcastPkts, tagCounter32)
    | 12 => some (berEncodeCounter32 iface.inNonUcastPkts, tagCounter32)
    | 13 => some (berEncodeCounter32 iface.inErrors, tagCounter32)
    | 14 => some (berEncodeCounter32 iface.inDiscards, tagCounter32)
    | 15 => some (berEncodeCounter32 iface.inUnknownProtos, tagCounter32)
    | 16 => some (berEncodeCounter32 iface.outOctets, tagCounter32)
    | 17 => some (berEncodeCounter32 iface.outUcastPkts, tagCounter32)
    | 18 => some (berEncodeCounter32 iface.outNonUcastPkts, tagCounter32)
    | 19 => some (berEncodeCounter32 iface.outErrors, tagCounter32)
    | 20 => some (berEncodeCounter32 iface.outDiscards, tagCounter32)
    | _ => none

/-- `getIfXTableValue`. -/
def getIfXTableValue (col ifIdx : ℤ) (ifaces : List IfData) : Option (Bytes × UInt8) :=
  match ifaces.find? fun iface => iface.ifIndex.toInt = ifIdx with
  | none => none
  | some iface =>
    match col with
    | 1 => some (if iface.ifName = [] then iface.ifDescr else iface.ifName, tagOctetString)
    | 2 => some (berEncodeCounter32 iface.inMulticastPkts, tagCounter32)
    | 3 => some (berEncodeCounter32 iface.inBroadcastPkts, tagCounter32)
    | 4 => some (berEncodeCounter32 iface.outMulticastPkts, tagCounter32)
    | 5 => some (berEncodeCounter32 iface.outBroadcastPkts, tagCounter32)
    | 6 => some (berEncodeCounter64 iface.hcInOctets, tagCounter64)
    | 7 => some (berEncodeCounter64 iface.hcInUcastPkts, tagCounter64)
    | 10 => some (berEncodeCounter64 iface.hcOutOctets, tagCounter64)
    | 11 => some (berEncodeCounter64 iface.hcOutUcastPkts, tagCounter64)
    | 15 => some (berEncodeGauge32 iface.ifHighSpeed, tagGauge32)
    | 18 => some (iface.ifAlias, tagOctetString)
    | _ => none

/-- The loop of `oidAbsenceTag` over the tables: the first whose prefix the identifier
has decides. -/
def tableAbsenceTag (oid : Oid) : List (Oid × List ℤ) → UInt8
  | [] => tagNoSuchObject
  | (front, cols) :: rest =>
    if oidHasPrefix oid front then
      match oid.drop front.length with
      | [] => tagNoSuchObject
      | col :: _ => if col ∈ cols then tagNoSuchInstance else tagNoSuchObject
    else tableAbsenceTag oid rest

/-- `oidAbsenceTag`. -/
def oidAbsenceTag (oid : Oid) : UInt8 :=
  if staticOIDs.any fun objectOID => 0 < objectOID.length && oidHasPrefix oid objectOID.dropLast then
    tagNoSuchInstance
  else tableAbsenceTag oid tables

/-- A value in a table, or what says that there is none. -/
def tableValue (value : ℤ → ℤ → List IfData → Option (Bytes × UInt8)) (ifaces : List IfData) (oid : Oid)
    (front : Oid) : Bytes × UInt8 :=
  (value (oid.getD front.length 0) (oid.getD (front.length + 1) 0) ifaces).getD ([], oidAbsenceTag oid)

/-- `getOIDValueSnap`. -/
def getOIDValueSnap (r : Reading) (ifaces : List IfData) (oid : Oid) : Bytes × UInt8 :=
  if oid = oidSysDescr then
    let desc := bytes "xpf stateful firewall"
    (match r.cfg with
      | none => desc
      | some cfg => if cfg.description ≠ [] then cfg.description else desc, tagOctetString)
  else if oid = oidSysObjectID then (berEncodeOID [1, 3, 6, 1, 4, 1, 99999, 1], tagObjectIdentifier)
  else if oid = oidSysUpTime then (berEncodeTimeTicks (r.uptimeMillis.tdiv 10), tagTimeTicks)
  else if oid = oidSysContact then ((r.cfg.map (·.contact)).getD [], tagOctetString)
  else if oid = oidSysName then (r.hostname.getD (bytes "unknown"), tagOctetString)
  else if oid = oidSysLocation then ((r.cfg.map (·.location)).getD [], tagOctetString)
  else if oid = oidIfNumber then (berEncodeIntegerValue (Int64.ofNat ifaces.length), tagInteger)
  else if oid.length = oidIfTablePrefix.length + 2 ∧ oidHasPrefix oid oidIfTablePrefix then
    tableValue getIfTableValue ifaces oid oidIfTablePrefix
  else if oid.length = oidIfXTablePrefix.length + 2 ∧ oidHasPrefix oid oidIfXTablePrefix then
    tableValue getIfXTableValue ifaces oid oidIfXTablePrefix
  else ([], oidAbsenceTag oid)

/-! ## The view -/

/-- `sort.Slice` by the interface index. -/
def sortByIndex (ifaces : List IfData) : List IfData :=
  ifaces.insertionSort fun a b => a.ifIndex ≤ b.ifIndex

/-- `ifSnapshot.mibOIDs`. -/
def mibOIDs (ifaces : List IfData) : List Oid :=
  let sorted := sortByIndex ifaces
  staticOIDs ++ tables.flatMap fun (front, cols) =>
    cols.flatMap fun col => sorted.map fun iface => front ++ [col, iface.ifIndex.toInt]

/-- `oidCompare`. -/
def oidCompare : Oid → Oid → ℤ
  | [], [] => 0
  | [], _ :: _ => -1
  | _ :: _, [] => 1
  | a :: as, b :: bs => if a < b then -1 else if a > b then 1 else oidCompare as bs

/-- `findNextOIDSnap`. -/
def findNextOIDSnap (oid : Oid) (ifaces : List IfData) : Option Oid :=
  let view := mibOIDs ifaces
  view[Bisect.search view.length fun i => oidCompare (view.getD i []) oid > 0]?

/-! ## What the view stands for -/

/-- The objects the agent serves: the scalars, and every column of a table for every
interface. -/
def mibView (ifaces : List IfData) : Set Oid :=
  {oid | oid ∈ staticOIDs ∨ ∃ table ∈ tables, ∃ col ∈ table.2, ∃ iface ∈ ifaces,
    oid = table.1 ++ [col, iface.ifIndex.toInt]}

open Classical in
/-- The least object of the view behind an identifier, in lexicographic order. -/
noncomputable def successor (ifaces : List IfData) (oid : Oid) : Option Oid :=
  if h : ∃ next, IsLeast {o | o ∈ mibView ifaces ∧ oid < o} next then some h.choose else none

theorem mem_mibOIDs {ifaces : List IfData} {oid : Oid} : oid ∈ mibOIDs ifaces ↔ oid ∈ mibView ifaces := by
  have hsort : ∀ iface, iface ∈ sortByIndex ifaces ↔ iface ∈ ifaces := fun _ => List.mem_insertionSort _
  simp only [mibOIDs, mibView, List.mem_append, List.mem_flatMap, List.mem_map, hsort, Set.mem_setOf_eq, eq_comm]

theorem oidCompare_pos_iff (a b : Oid) : oidCompare a b > 0 ↔ b < a := by
  induction a generalizing b with
  | nil =>
    cases b with
    | nil => simp [oidCompare]
    | cons y bs => simp [oidCompare]
  | cons x as ih =>
    cases b with
    | nil => simp [oidCompare]
    | cons y bs =>
      rw [oidCompare, List.cons_lt_cons_iff]
      split_ifs with hlt hgt
      · simp only [gt_iff_lt]
        omega
      · simp only [gt_iff_lt]
        omega
      · have heq : y = x := by omega
        rw [ih]
        simp only [heq, lt_irrefl, true_and, false_or]

/-- The columns of one table are sorted when the columns and the indices are. -/
theorem pairwise_table {cols indices : List ℤ} (front : Oid) (hcols : cols.Pairwise (· < ·))
    (hindices : indices.Pairwise (· < ·)) :
    (cols.flatMap fun col => indices.map fun i => front ++ [col, i]).Pairwise (· < ·) := by
  rw [List.pairwise_flatMap]
  constructor
  · intro col _
    rw [List.pairwise_map]
    refine hindices.imp fun hlt => ?_
    apply List.append_left_lt
    exact List.cons_lt_cons_iff.mpr (.inr ⟨rfl, List.cons_lt_cons_iff.mpr (.inl hlt)⟩)
  · refine hcols.imp fun hlt a ha b hb => ?_
    obtain ⟨i, -, rfl⟩ := List.mem_map.mp ha
    obtain ⟨j, -, rfl⟩ := List.mem_map.mp hb
    apply List.append_left_lt
    exact List.cons_lt_cons_iff.mpr (.inl hlt)

/-- Distinct indices are strictly sorted. -/
theorem pairwise_sortByIndex {ifaces : List IfData} (hdistinct : (ifaces.map (·.ifIndex)).Nodup) :
    ((sortByIndex ifaces).map fun iface => iface.ifIndex.toInt).Pairwise (· < ·) := by
  haveI : Std.Total fun a b : IfData => a.ifIndex ≤ b.ifIndex :=
    ⟨fun a b => by simpa only [Int64.le_iff_toInt_le] using Int.le_total a.ifIndex.toInt b.ifIndex.toInt⟩
  haveI : IsTrans IfData fun a b => a.ifIndex ≤ b.ifIndex :=
    ⟨fun a b c => by simpa only [Int64.le_iff_toInt_le] using Int.le_trans⟩
  have hsorted : (sortByIndex ifaces).Pairwise fun a b => a.ifIndex ≤ b.ifIndex :=
    List.pairwise_insertionSort _ ifaces
  have hnodup : (sortByIndex ifaces).Pairwise fun a b => a.ifIndex ≠ b.ifIndex := by
    have hperm := (List.perm_insertionSort (fun a b : IfData => a.ifIndex ≤ b.ifIndex) ifaces).map (·.ifIndex)
    exact List.pairwise_map.mp (hperm.nodup_iff.mpr hdistinct)
  rw [List.pairwise_map]
  refine hsorted.imp₂ (fun a b hle hne => ?_) hnodup
  rw [Int64.le_iff_toInt_le] at hle
  exact lt_of_le_of_ne hle fun heq => hne (Int64.toInt_inj.mp heq)

/-- **The view is sorted**, strictly. -/
theorem pairwise_mibOIDs {ifaces : List IfData} (hdistinct : (ifaces.map (·.ifIndex)).Nodup) :
    (mibOIDs ifaces).Pairwise (· < ·) := by
  have hindices := pairwise_sortByIndex hdistinct
  have htable : ∀ table ∈ tables, (table.2.flatMap fun col =>
      (sortByIndex ifaces).map fun iface => table.1 ++ [col, iface.ifIndex.toInt]).Pairwise (· < ·) := by
    intro table htable
    have hcols : table.2.Pairwise (· < ·) := by
      revert table
      decide
    have hmap : ∀ col, (sortByIndex ifaces).map (fun iface => table.1 ++ [col, iface.ifIndex.toInt])
        = ((sortByIndex ifaces).map fun iface => iface.ifIndex.toInt).map fun i => table.1 ++ [col, i] :=
      fun col => by rw [List.map_map]; rfl
    simp only [hmap]
    exact pairwise_table table.1 hcols hindices
  -- a table's objects start with its prefix, and the prefixes are apart
  have hstatic : ∀ a ∈ staticOIDs, ∀ table ∈ tables, ∀ rest, a < table.1 ++ rest := by
    simp [staticOIDs, tables, oidSysDescr, oidSysObjectID, oidSysUpTime, oidSysContact, oidSysName, oidSysLocation,
      oidIfNumber, oidIfTablePrefix, oidIfXTablePrefix, List.cons_lt_cons_iff]
  have htables : ∀ rest rest', oidIfTablePrefix ++ rest < oidIfXTablePrefix ++ rest' := by
    simp [oidIfTablePrefix, oidIfXTablePrefix, List.cons_lt_cons_iff]
  rw [mibOIDs]
  dsimp only
  rw [List.pairwise_append, List.pairwise_flatMap]
  refine ⟨by decide, ⟨htable, ?_⟩, ?_⟩
  · refine List.pairwise_pair.mpr fun a ha b hb => ?_
    obtain ⟨col, -, ha⟩ := List.mem_flatMap.mp ha
    obtain ⟨iface, -, rfl⟩ := List.mem_map.mp ha
    obtain ⟨col', -, hb⟩ := List.mem_flatMap.mp hb
    obtain ⟨iface', -, rfl⟩ := List.mem_map.mp hb
    exact htables _ _
  · intro a ha b hb
    obtain ⟨table, hmem, hb⟩ := List.mem_flatMap.mp hb
    obtain ⟨col, -, hb⟩ := List.mem_flatMap.mp hb
    obtain ⟨iface, -, rfl⟩ := List.mem_map.mp hb
    exact hstatic a ha table hmem _

theorem successor_eq_some_iff {ifaces : List IfData} {oid next : Oid} :
    successor ifaces oid = some next ↔ IsLeast {o | o ∈ mibView ifaces ∧ oid < o} next := by
  rw [successor]
  split_ifs with h
  · rw [Option.some.injEq]
    constructor
    · rintro rfl
      exact h.choose_spec
    · exact fun hnext => h.choose_spec.unique hnext
  · constructor
    · intro hnone
      cases hnone
    · exact fun hnext => absurd ⟨next, hnext⟩ h

/-- **The binary search finds the successor**: the least object of the view behind the
identifier, and nothing when there is none. -/
theorem findNextOIDSnap_eq {ifaces : List IfData} (hdistinct : (ifaces.map (·.ifIndex)).Nodup) (oid : Oid) :
    findNextOIDSnap oid ifaces = successor ifaces oid := by
  have hsorted := pairwise_mibOIDs hdistinct
  have hat : ∀ {i : ℕ} (hi : i < (mibOIDs ifaces).length), (mibOIDs ifaces).getD i [] = (mibOIDs ifaces)[i] :=
    fun hi => by rw [List.getD_eq_getElem?_getD, List.getElem?_eq_getElem hi, Option.getD_some]
  -- behind an object that follows the identifier only such objects stand
  obtain ⟨hle, hbelow, habove⟩ := Bisect.search_spec (n := (mibOIDs ifaces).length)
    (f := fun i => oidCompare ((mibOIDs ifaces).getD i []) oid > 0) (by
      intro i j hij hj hi
      have hi' : i < (mibOIDs ifaces).length := Nat.lt_of_le_of_lt hij hj
      simp only [decide_eq_true_eq, oidCompare_pos_iff] at hi ⊢
      rw [hat hi'] at hi
      rw [hat hj]
      rcases Nat.lt_or_eq_of_le hij with hij | rfl
      · exact lt_trans hi (List.pairwise_iff_getElem.mp hsorted i j hi' hj hij)
      · exact hi)
  rw [findNextOIDSnap]
  generalize Bisect.search (mibOIDs ifaces).length
    (fun i => decide (oidCompare ((mibOIDs ifaces).getD i []) oid > 0)) = k at hle hbelow habove ⊢
  have hfollows : ∀ {i : ℕ} (hi : i < (mibOIDs ifaces).length), oid < (mibOIDs ifaces)[i] ↔ k ≤ i := by
    intro i hi
    constructor
    · intro hlt
      by_contra hik
      have hfail := hbelow i (by omega)
      rw [hat hi, decide_eq_false_iff_not, oidCompare_pos_iff] at hfail
      exact hfail hlt
    · intro hki
      have hhold := habove i hki hi
      rw [hat hi, decide_eq_true_eq, oidCompare_pos_iff] at hhold
      exact hhold
  rcases Nat.lt_or_eq_of_le hle with hlt | rfl
  · rw [List.getElem?_eq_getElem hlt, eq_comm, successor_eq_some_iff]
    refine ⟨⟨mem_mibOIDs.mp (List.getElem_mem hlt), (hfollows hlt).mpr (Nat.le_refl k)⟩, ?_⟩
    rintro o ⟨ho, hoid⟩
    obtain ⟨i, hi, rfl⟩ := List.mem_iff_getElem.mp (mem_mibOIDs.mpr ho)
    rcases Nat.lt_or_eq_of_le ((hfollows hi).mp hoid) with hki | rfl
    · exact le_of_lt (List.pairwise_iff_getElem.mp hsorted k i hlt hi hki)
    · exact le_refl _
  · rw [List.getElem?_eq_none (Nat.le_refl _), eq_comm, Option.eq_none_iff_forall_ne_some]
    intro next hnext
    obtain ⟨⟨hmem, hoid⟩, -⟩ := successor_eq_some_iff.mp hnext
    obtain ⟨i, hi, rfl⟩ := List.mem_iff_getElem.mp (mem_mibOIDs.mpr hmem)
    exact absurd ((hfollows hi).mp hoid) (Nat.not_le.mpr hi)

end Xpf.SnmpMib
