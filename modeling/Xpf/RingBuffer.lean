/-
A ring of `cap` slots read as a list: the entries start at `head` and run around the end of
the buffer. Entries are added at either end and one is removed from anywhere by closing the
gap behind it.

Only the slots in use are told apart, so every statement here is about the list read from
the ring and none about a slot outside it.
-/
import Mathlib.Data.List.Nodup
import Mathlib.Data.Nat.ModEq
import Mathlib.Logic.Function.Basic
import Mathlib.Tactic.Common

set_option autoImplicit false

namespace Xpf

structure RingBuffer (α : Type) (cap : ℕ) where
  buf : ℕ → α
  head : ℕ
  len : ℕ

namespace RingBuffer

variable {α : Type} {cap : ℕ}

/-- The place in the buffer of the `i`-th entry. -/
def slot (r : RingBuffer α cap) (i : ℕ) : ℕ := (r.head + i) % cap

/-- The entries, head first. -/
def toList (r : RingBuffer α cap) : List α := (List.range r.len).map fun i => r.buf (r.slot i)

def pushBack (r : RingBuffer α cap) (a : α) : RingBuffer α cap :=
  { r with buf := Function.update r.buf (r.slot r.len) a, len := r.len + 1 }

def pushFront (r : RingBuffer α cap) (a : α) : RingBuffer α cap :=
  let head := (r.head + cap - 1) % cap
  { buf := Function.update r.buf head a, head := head, len := r.len + 1 }

/-- Copy `n` entries one place towards the head, the first of them onto the `i`-th. -/
def closeGap (r : RingBuffer α cap) (i n : ℕ) : ℕ → α :=
  (List.range' i n).foldl (fun buf j => Function.update buf (r.slot j) (buf (r.slot (j + 1)))) r.buf

/-- Remove the first entry equal to `a`. -/
def remove [DecidableEq α] (r : RingBuffer α cap) (a : α) : RingBuffer α cap :=
  match (List.range r.len).find? fun i => r.buf (r.slot i) = a with
  | none => r
  | some i => { r with buf := r.closeGap i (r.len - 1 - i), len := r.len - 1 }

/-- No more entries than slots. -/
def Fits (r : RingBuffer α cap) : Prop := r.len ≤ cap

@[simp] theorem length_toList (r : RingBuffer α cap) : r.toList.length = r.len := by
  simp [toList]

theorem slot_inj (r : RingBuffer α cap) {i j : ℕ} (hi : i < cap) (hj : j < cap)
    (h : r.slot i = r.slot j) : i = j := by
  have hmod : i ≡ j [MOD cap] := Nat.ModEq.add_left_cancel' r.head h
  exact hmod.eq_of_lt_of_lt hi hj

/-! ## The ends -/

theorem toList_pushBack (r : RingBuffer α cap) (a : α) (h : r.len < cap) :
    (r.pushBack a).toList = r.toList ++ [a] := by
  unfold toList
  simp only [pushBack, List.range_succ, List.map_append, List.map_cons, List.map_nil]
  congr 1
  · apply List.map_congr_left
    intro i hi
    have hlt : i < r.len := List.mem_range.mp hi
    refine Function.update_of_ne ?_ _ _
    intro heq
    have := r.slot_inj (hlt.trans h) h heq
    omega
  · exact congrArg (· :: []) (Function.update_self _ _ _)

theorem toList_pushFront (r : RingBuffer α cap) (a : α) (h : r.len < cap) :
    (r.pushFront a).toList = a :: r.toList := by
  have hcap : 0 < cap := (Nat.zero_le r.len).trans_lt h
  have hslot : ∀ i, (r.pushFront a).slot (i + 1) = r.slot i := by
    intro i
    simp only [pushFront, slot, Nat.mod_add_mod]
    have : r.head + cap - 1 + (i + 1) = r.head + i + cap := by omega
    rw [this, Nat.add_mod_right]
  have hhead : (r.pushFront a).slot 0 = (r.head + cap - 1) % cap := by
    simp only [pushFront, slot, Nat.add_zero, Nat.mod_mod]
  unfold toList
  change (List.range (r.len + 1)).map _ = _
  rw [List.range_succ_eq_map, List.map_cons, List.map_map]
  congr 1
  · rw [hhead]
    exact Function.update_self _ _ _
  · apply List.map_congr_left
    intro i hi
    have hlt : i < r.len := List.mem_range.mp hi
    have hne : r.slot i ≠ (r.head + cap - 1) % cap := by
      rw [← hhead, ← hslot i]
      intro heq
      have := (r.pushFront a).slot_inj (by omega) hcap heq
      omega
    change Function.update r.buf _ a ((r.pushFront a).slot (i + 1)) = _
    rw [hslot, Function.update_of_ne hne]

/-! ## Removal -/

/-- The closed gap shows every copied entry one place earlier and leaves the others. -/
theorem closeGap_slot (r : RingBuffer α cap) (i n k : ℕ) (hn : i + n < cap) (hk : k < cap) :
    r.closeGap i n (r.slot k)
      = if i ≤ k ∧ k < i + n then r.buf (r.slot (k + 1)) else r.buf (r.slot k) := by
  induction n generalizing k with
  | zero => simp [closeGap]
  | succ n ih =>
    have hstep : r.closeGap i (n + 1)
        = Function.update (r.closeGap i n) (r.slot (i + n)) (r.closeGap i n (r.slot (i + n + 1))) := by
      unfold closeGap
      rw [List.range'_1_concat, List.foldl_append]
      rfl
    rw [hstep]
    rcases eq_or_ne k (i + n) with rfl | hne
    · rw [Function.update_self, ih (i + n + 1) (by omega) hn, if_neg (by omega), if_pos (by omega)]
    · rw [Function.update_of_ne (fun h => hne (r.slot_inj hk (by omega) h)), ih k (by omega) hk]
      exact if_congr (by omega) rfl rfl

theorem toList_remove [DecidableEq α] (r : RingBuffer α cap) (a : α) (h : r.Fits) :
    (r.remove a).toList = r.toList.erase a := by
  unfold remove
  split
  · rename_i hnone
    rw [List.erase_of_not_mem]
    intro hmem
    obtain ⟨i, hi, hia⟩ := List.mem_map.mp hmem
    have := List.find?_eq_none.mp hnone i hi
    simp [hia] at this
  · rename_i i hsome
    obtain ⟨hia, hi, hbefore⟩ := List.find?_range_eq_some.mp hsome
    rw [decide_eq_true_eq] at hia
    have hi : i < r.len := List.mem_range.mp hi
    have hcap : r.len ≤ cap := h
    -- the ring is the entries before the removed one, that one, and the entries after it
    have hsplit : ∀ n, List.range (i + n) = List.range i ++ List.range' i n := by
      intro n
      rw [List.range_add, List.range'_eq_map_range]
    have hall : List.range r.len = List.range i ++ i :: List.range' (i + 1) (r.len - 1 - i) := by
      rw [← List.range'_succ, ← hsplit]
      congr 1
      omega
    have hrest : List.range (r.len - 1) = List.range i ++ List.range' i (r.len - 1 - i) := by
      rw [← hsplit]
      congr 1
      omega
    have hfirst : a ∉ (List.range i).map fun j => r.buf (r.slot j) := by
      intro hmem
      obtain ⟨j, hj, hja⟩ := List.mem_map.mp hmem
      have := hbefore j (List.mem_range.mp hj)
      simp [hja] at this
    unfold toList
    rw [hall, List.map_append, List.map_cons, hia, List.erase_append_right _ hfirst,
      List.erase_cons_head]
    change (List.range (r.len - 1)).map (fun k => r.closeGap i (r.len - 1 - i) (r.slot k)) = _
    rw [hrest, List.map_append]
    congr 1
    · apply List.map_congr_left
      intro k hk
      have hk : k < i := List.mem_range.mp hk
      rw [r.closeGap_slot _ _ _ (by omega) (by omega), if_neg (by omega)]
    · rw [Nat.add_comm i 1, ← List.map_add_range', List.map_map]
      apply List.map_congr_left
      intro k hk
      have hk := List.mem_range'_1.mp hk
      rw [r.closeGap_slot _ _ _ (by omega) (by omega), if_pos (by omega)]
      simp [Nat.add_comm]

theorem Fits.remove [DecidableEq α] {r : RingBuffer α cap} (h : r.Fits) (a : α) : (r.remove a).Fits := by
  unfold RingBuffer.remove
  split
  · exact h
  · exact (Nat.sub_le _ _).trans h

end RingBuffer

end Xpf
