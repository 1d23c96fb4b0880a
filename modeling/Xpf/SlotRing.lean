/-
A table with a dense list of its keys, in which each row knows its own position: the position
makes a removal a swap with the last key, and the row of the key that moved is repaired.

`Exact` says that the positions are right; with it the list holds the keys of the table, each
once. The lemmas say what the operations keep of it and which rows they change.
-/
import Mathlib.Data.List.Nodup
import Xpf.Tables

set_option autoImplicit false

namespace Xpf.SlotRing

open Xpf.Tables (Table)

variable {κ ν γ : Type}

/-- `Vec::swap_remove`: the last element takes the place of the one removed. -/
def swapRemove (ring : List κ) (i : ℕ) : List κ :=
  match ring.getLast? with
  | none => ring
  | some last => (ring.set i last).dropLast

theorem getElem?_swapRemove {ring : List κ} {i : ℕ} (hi : i < ring.length) (j : ℕ) :
    (swapRemove ring i)[j]?
      = if j < ring.length - 1 then if j = i then ring[ring.length - 1]? else ring[j]? else none := by
  have hlast : ring.getLast? = ring[ring.length - 1]? := List.getLast?_eq_getElem?
  obtain ⟨last, hget⟩ : ∃ last, ring[ring.length - 1]? = some last := ⟨_, List.getElem?_eq_getElem (by omega)⟩
  rw [swapRemove, hlast, hget]
  dsimp only
  rw [List.getElem?_dropLast, List.length_set, List.getElem?_set]
  by_cases hj : j < ring.length - 1
  · rw [if_pos hj, if_pos hj]
    by_cases hji : j = i
    · rw [if_pos hji.symm, if_pos hji, if_pos hi]
    · rw [if_neg (Ne.symm hji), if_neg hji]
  · rw [if_neg hj, if_neg hj]

/-- Where a row keeps its position. -/
structure Slot (ν : Type) where
  get : ν → ℕ
  set : ν → ℕ → ν
  get_set : ∀ v i, get (set v i) = i

variable [DecidableEq κ] (slot : Slot ν)

/-- A new row at the end of the list. -/
def insertRow (rows : Table κ ν) (ring : List κ) (k : κ) (v : ν) : Table κ ν × List κ :=
  (rows.insert k (slot.set v ring.length), ring ++ [k])

/-- The row out of the table and its key out of the list; none where there is no row. -/
def removeRow (rows : Table κ ν) (ring : List κ) (k : κ) : Option (Table κ ν × List κ) :=
  match rows.lookup k with
  | none => none
  | some v =>
    let i := slot.get v
    let last := ring.length - 1
    let rows := rows.erase k
    let ring := swapRemove ring i
    if i ≠ last then
      match ring[i]? with
      | none => some (rows, ring)
      | some moved =>
        match rows.lookup moved with
        | some m => some (rows.insert moved (slot.set m i), ring)
        | none => some (rows, ring)
    else some (rows, ring)

/-- The list has at each position the key whose row says so. -/
def Exact (rows : Table κ ν) (ring : List κ) : Prop :=
  ∀ k i, ring[i]? = some k ↔ ∃ v, rows.lookup k = some v ∧ slot.get v = i

section

variable {slot} {rows : Table κ ν} {ring : List κ} {k : κ} {v : ν}

theorem exact_empty : Exact slot (∅ : Table κ ν) [] := by
  intro k i
  simp

theorem Exact.mem_iff (h : Exact slot rows ring) (k : κ) : k ∈ ring ↔ k ∈ rows := by
  rw [List.mem_iff_getElem?, ← AList.lookup_isSome, Option.isSome_iff_exists]
  constructor
  · rintro ⟨i, hi⟩
    obtain ⟨v, hv, -⟩ := (h k i).mp hi
    exact ⟨v, hv⟩
  · rintro ⟨v, hv⟩
    exact ⟨slot.get v, (h k _).mpr ⟨v, hv, rfl⟩⟩

theorem Exact.slot_lt (h : Exact slot rows ring) (hv : rows.lookup k = some v) :
    ring[slot.get v]? = some k ∧ slot.get v < ring.length := by
  have hget := (h k _).mpr ⟨v, hv, rfl⟩
  exact ⟨hget, (List.getElem?_eq_some_iff.mp hget).1⟩

theorem Exact.insertRow (h : Exact slot rows ring) (hnew : k ∉ rows) (v : ν) :
    Exact slot (insertRow slot rows ring k v).1 (insertRow slot rows ring k v).2 := by
  intro k' i
  rw [SlotRing.insertRow]
  dsimp only
  rcases eq_or_ne k' k with rfl | hne
  · rw [AList.lookup_insert]
    have hnot : k' ∉ ring := fun hmem => hnew ((h.mem_iff k').mp hmem)
    constructor
    · intro hget
      rcases Nat.lt_trichotomy i ring.length with hlt | heq | hgt
      · rw [List.getElem?_append_left hlt] at hget
        exact (hnot (List.mem_of_getElem? hget)).elim
      · exact ⟨_, rfl, by rw [slot.get_set, heq]⟩
      · rw [List.getElem?_eq_none (by rw [List.length_append, List.length_singleton]; omega)] at hget
        cases hget
    · rintro ⟨v, hv, hi⟩
      rw [Option.some.injEq] at hv
      subst hv
      rw [slot.get_set] at hi
      rw [← hi, List.getElem?_concat_length]
  · rw [AList.lookup_insert_ne hne, ← h k' i]
    rcases Nat.lt_or_ge i ring.length with hlt | hge
    · rw [List.getElem?_append_left hlt]
    · rw [List.getElem?_append_right hge, List.getElem?_eq_none hge]
      refine ⟨fun hget => ?_, fun hget => by cases hget⟩
      exact (hne (List.mem_singleton.mp (List.mem_of_getElem? hget))).elim

/-- A row that keeps its position. -/
theorem Exact.update (h : Exact slot rows ring) (hv : rows.lookup k = some v) {w : ν} (hw : slot.get w = slot.get v) :
    Exact slot (rows.insert k w) ring := by
  intro k' i
  rw [h k' i]
  rcases eq_or_ne k' k with rfl | hne
  · rw [AList.lookup_insert, hv]
    simp [hw]
  · rw [AList.lookup_insert_ne hne]

/-- The removed row, and the last one at its place. -/
theorem removeRow_eq (h : Exact slot rows ring) (hv : rows.lookup k = some v) :
    ∃ rows', removeRow slot rows ring k = some (rows', swapRemove ring (slot.get v))
      ∧ ∀ k', rows'.lookup k' = if k' = k then none
        else (rows.lookup k').map fun w => if slot.get w = ring.length - 1 then slot.set w (slot.get v) else w := by
  obtain ⟨hget, hlt⟩ := h.slot_lt hv
  have herase : ∀ k', (rows.erase k).lookup k' = if k' = k then none else rows.lookup k' := by
    intro k'
    rcases eq_or_ne k' k with rfl | hne
    · rw [if_pos rfl, AList.lookup_erase]
    · rw [if_neg hne, AList.lookup_erase_ne hne]
  have hother : ∀ k' w, k' ≠ k → rows.lookup k' = some w → slot.get w ≠ slot.get v := by
    intro k' w hne hw heq
    have hget' := (h.slot_lt hw).1
    rw [heq, hget, Option.some.injEq] at hget'
    exact hne hget'.symm
  simp only [removeRow, hv]
  by_cases hlast : slot.get v = ring.length - 1
  · -- the last key itself: no row moves
    simp only [hlast, ne_eq, not_true_eq_false, if_false]
    refine ⟨_, rfl, fun k' => ?_⟩
    rw [herase]
    rcases eq_or_ne k' k with rfl | hne
    · rw [if_pos rfl, if_pos rfl]
    · rw [if_neg hne, if_neg hne]
      cases hw : rows.lookup k' with
      | none => rfl
      | some w =>
        have hnot : slot.get w ≠ ring.length - 1 := hlast ▸ hother k' w hne hw
        rw [Option.map_some, if_neg hnot]
  · have hmoved : (swapRemove ring (slot.get v))[slot.get v]? = ring[ring.length - 1]? := by
      rw [getElem?_swapRemove hlt, if_pos (by omega), if_pos rfl]
    obtain ⟨moved, hlastGet⟩ : ∃ moved, ring[ring.length - 1]? = some moved :=
      ⟨_, List.getElem?_eq_getElem (by omega)⟩
    obtain ⟨m, hm, hslot⟩ := (h moved _).mp hlastGet
    have hne : moved ≠ k := by
      rintro rfl
      rw [hv, Option.some.injEq] at hm
      exact hlast (hm ▸ hslot)
    have hlookup : (rows.erase k).lookup moved = some m := by rw [herase, if_neg hne, hm]
    simp only [ne_eq, hlast, not_false_eq_true, if_true, hmoved, hlastGet, hlookup]
    refine ⟨_, rfl, fun k' => ?_⟩
    rcases eq_or_ne k' moved with rfl | hneMoved
    · rw [AList.lookup_insert, if_neg hne, hm, Option.map_some, if_pos hslot]
    · rw [AList.lookup_insert_ne hneMoved, herase]
      rcases eq_or_ne k' k with rfl | hnek
      · rw [if_pos rfl, if_pos rfl]
      · rw [if_neg hnek, if_neg hnek]
        cases hw : rows.lookup k' with
        | none => rfl
        | some w =>
          have hnot : slot.get w ≠ ring.length - 1 := by
            intro heq
            have hget' := (h.slot_lt hw).1
            rw [heq, hlastGet, Option.some.injEq] at hget'
            exact hneMoved hget'.symm
          rw [Option.map_some, if_neg hnot]

/-- A removal keeps the positions right and the contents of all other rows. -/
theorem Exact.removeRow (h : Exact slot rows ring) (hv : rows.lookup k = some v) (content : ν → γ)
    (hcontent : ∀ w i, content (slot.set w i) = content w) :
    ∃ rows' ring', removeRow slot rows ring k = some (rows', ring') ∧ Exact slot rows' ring'
      ∧ ∀ k', (rows'.lookup k').map content = if k' = k then none else (rows.lookup k').map content := by
  obtain ⟨rows', heq, hlookup⟩ := removeRow_eq h hv
  obtain ⟨hget, hlt⟩ := h.slot_lt hv
  refine ⟨rows', _, heq, fun k' i => ?_, fun k' => ?_⟩
  · rw [getElem?_swapRemove hlt, hlookup]
    rcases eq_or_ne k' k with rfl | hne
    · -- the key is nowhere any more
      simp only [if_true, reduceCtorEq, false_and, exists_false, iff_false]
      split
      · next hi =>
        split
        · intro hlastGet
          obtain ⟨w, hw, hslot⟩ := (h k' _).mp hlastGet
          rw [hv, Option.some.injEq] at hw
          subst hw
          omega
        · next hne =>
          intro hget'
          obtain ⟨w, hw, hslot⟩ := (h k' _).mp hget'
          rw [hv, Option.some.injEq] at hw
          subst hw
          exact hne hslot.symm
      · simp
    · rw [if_neg hne]
      simp only [Option.map_eq_some_iff]
      have hother : ∀ w, rows.lookup k' = some w → slot.get w ≠ slot.get v := by
        intro w hw heq
        have hget' := (h.slot_lt hw).1
        rw [heq, hget, Option.some.injEq] at hget'
        exact hne hget'.symm
      constructor
      · intro hget'
        split at hget'
        · next hi =>
          split at hget'
          · next hslot =>
            obtain ⟨w, hw, hlast⟩ := (h k' _).mp hget'
            exact ⟨_, ⟨w, hw, rfl⟩, by rw [if_pos hlast, slot.get_set, hslot]⟩
          · next hslot =>
            obtain ⟨w, hw, hi'⟩ := (h k' _).mp hget'
            exact ⟨_, ⟨w, hw, rfl⟩, by rw [if_neg (by omega), hi']⟩
        · cases hget'
      · rintro ⟨w', ⟨w, hw, rfl⟩, hi⟩
        obtain ⟨hget', hlt'⟩ := h.slot_lt hw
        have hdiff := hother w hw
        by_cases hlast : slot.get w = ring.length - 1
        · rw [if_pos hlast, slot.get_set] at hi
          subst hi
          rw [if_pos (by omega), if_pos rfl, ← hlast, hget']
        · rw [if_neg hlast] at hi
          subst hi
          rw [if_pos (by omega), if_neg hdiff, hget']
  · rw [hlookup]
    rcases eq_or_ne k' k with rfl | hne
    · rw [if_pos rfl, if_pos rfl]
      rfl
    · rw [if_neg hne, if_neg hne, Option.map_map]
      congr 1
      funext w
      dsimp only [Function.comp]
      split
      · exact hcontent w _
      · rfl

end

end Xpf.SlotRing
