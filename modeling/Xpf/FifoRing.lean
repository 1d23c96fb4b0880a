/-
A map of bounded size that forgets its oldest key: `n` slots, filled in order and then
overwritten in a cycle. A value is updated in place, so an update does not make a key any
younger: it is evicted when the cursor comes to its slot, however recently it was used.
-/
import Mathlib.Data.List.Nodup
import Mathlib.Tactic.Common

set_option autoImplicit false

namespace Xpf

/-- Up to `n` entries with distinct keys, and the slot the next new key is written to. -/
structure FifoRing (κ ν : Type) (n : ℕ) where
  entries : List (κ × ν)
  next : ℕ
  distinct : (entries.map Prod.fst).Nodup
  bounded : entries.length ≤ n
  cursor : next < n
  filling : entries.length < n → next = entries.length

namespace FifoRing

variable {κ ν : Type} [DecidableEq κ] {n : ℕ}

def empty (hn : 0 < n) : FifoRing κ ν n where
  entries := []
  next := 0
  distinct := List.nodup_nil
  bounded := Nat.zero_le n
  cursor := hn
  filling := fun _ => rfl

def lookup (r : FifoRing κ ν n) (k : κ) : Option ν := r.entries.lookup k

/-- Replace the value of a key where it stands. -/
def update (r : FifoRing κ ν n) (k : κ) (v : ν) : FifoRing κ ν n where
  entries := r.entries.map fun e => if e.1 = k then (k, v) else e
  next := r.next
  distinct := by
    rw [List.map_map]
    convert r.distinct using 2
    funext e
    by_cases he : e.1 = k
    · simp [he]
    · simp [he]
  bounded := by
    rw [List.length_map]
    exact r.bounded
  cursor := r.cursor
  filling := by
    rw [List.length_map]
    exact r.filling

theorem lookup_eq_none {r : FifoRing κ ν n} {k : κ} : r.lookup k = none ↔ k ∉ r.entries.map Prod.fst := by
  unfold lookup
  rw [List.lookup_eq_none_iff]
  simp only [List.mem_map, not_exists, not_and, bne_iff_ne]
  exact ⟨fun h e he => (h e he).symm, fun h e he heq => h e he heq.symm⟩

/-- Write a new key to the slot at the cursor. -/
def insert (r : FifoRing κ ν n) (k : κ) (v : ν) (h : r.lookup k = none) : FifoRing κ ν n where
  entries := if r.entries.length < n then r.entries ++ [(k, v)] else r.entries.set r.next (k, v)
  next := (r.next + 1) % n
  distinct := by
    have hk := lookup_eq_none.mp h
    split_ifs
    · rw [List.map_append, List.nodup_append]
      refine ⟨r.distinct, List.nodup_singleton k, ?_⟩
      intro a ha b hb hab
      rw [List.map_singleton, List.mem_singleton] at hb
      rw [hab, hb] at ha
      exact hk ha
    · rw [List.map_set]
      exact r.distinct.set hk
  bounded := by
    split_ifs with hlen
    · rw [List.length_append]
      exact hlen
    · rw [List.length_set]
      exact r.bounded
  cursor := Nat.mod_lt _ (Nat.zero_lt_of_lt r.cursor)
  filling := by
    split_ifs with hlen
    · rw [List.length_append, List.length_singleton]
      intro hlt
      rw [r.filling hlen, Nat.mod_eq_of_lt hlt]
    · rw [List.length_set]
      exact fun hlt => absurd hlt hlen

/-- The key the next insertion overwrites. -/
def evicted (r : FifoRing κ ν n) : Option κ :=
  if r.entries.length < n then none else (r.entries[r.next]?).map Prod.fst

/-! ## Lookups -/

theorem lookup_update (r : FifoRing κ ν n) (k k' : κ) (v : ν) :
    (r.update k v).lookup k' = if k' = k then (r.lookup k).map (fun _ => v) else r.lookup k' := by
  unfold lookup update
  dsimp only
  induction r.entries with
  | nil => simp
  | cons e es ih =>
    rw [List.map_cons, List.lookup_cons, List.lookup_cons, List.lookup_cons, ih]
    by_cases he : e.1 = k
    · subst he
      rw [if_pos rfl, beq_self_eq_true]
      by_cases hk : k' = e.1
      · simp [hk]
      · simp [hk, beq_false_of_ne hk]
    · rw [if_neg he, beq_false_of_ne (Ne.symm he)]
      by_cases hk : k' = e.1
      · simp [hk, he]
      · simp [beq_false_of_ne hk]

/-- Overwriting one entry of a list with distinct keys. -/
theorem lookup_set {l : List (κ × ν)} (hl : (l.map Prod.fst).Nodup) {i : ℕ} {e : κ × ν} (he : l[i]? = some e)
    {k : κ} (hk : k ∉ l.map Prod.fst) (k' : κ) (v : ν) :
    (l.set i (k, v)).lookup k' = if k' = k then some v else if k' = e.1 then none else l.lookup k' := by
  induction l generalizing i with
  | nil => cases he
  | cons a l ih =>
    rw [List.map_cons, List.nodup_cons] at hl
    rw [List.map_cons, List.mem_cons, not_or] at hk
    cases i with
    | zero =>
      obtain rfl : a = e := Option.some.inj he
      rw [List.set_cons_zero, List.lookup_cons, List.lookup_cons]
      by_cases hk' : k' = k
      · simp [hk']
      rw [beq_false_of_ne hk', if_neg hk']
      by_cases ha : k' = a.1
      · -- the overwritten key does not occur a second time
        subst ha
        rw [if_pos rfl]
        apply List.lookup_eq_none_iff.mpr
        intro b hb
        rw [bne_iff_ne]
        intro hab
        apply hl.1
        rw [hab]
        exact List.mem_map_of_mem hb
      · rw [if_neg ha, beq_false_of_ne ha]
    | succ i =>
      rw [List.getElem?_cons_succ] at he
      rw [List.set_cons_succ, List.lookup_cons, List.lookup_cons, ih hl.2 he hk.2]
      have hne : e.1 ≠ a.1 := fun heq => hl.1 (heq ▸ List.mem_map_of_mem (List.mem_of_getElem? he))
      by_cases ha : k' = a.1
      · subst ha
        rw [if_neg (Ne.symm hk.1), if_neg (Ne.symm hk.1), if_neg hne.symm, if_neg hne.symm, beq_self_eq_true]
      · rw [beq_false_of_ne ha]

/-- **A new key** displaces the key at the cursor, once the ring is full, and no other. -/
theorem lookup_insert (r : FifoRing κ ν n) {k : κ} (v : ν) (h : r.lookup k = none) (k' : κ) :
    (r.insert k v h).lookup k'
      = if k' = k then some v else if r.evicted = some k' then none else r.lookup k' := by
  have hk := lookup_eq_none.mp h
  unfold lookup insert evicted
  dsimp only
  by_cases hlen : r.entries.length < n
  · rw [if_pos hlen, if_pos hlen, List.lookup_append]
    by_cases hk' : k' = k
    · subst hk'
      have hnone : r.entries.lookup k' = none := h
      simp [hnone]
    · rw [if_neg hk', List.lookup_cons, beq_false_of_ne hk']
      simp
  · have hnext : r.next < r.entries.length := by
      have := r.cursor
      omega
    have he : r.entries[r.next]? = some r.entries[r.next] := List.getElem?_eq_getElem hnext
    rw [if_neg hlen, if_neg hlen, lookup_set r.distinct he hk, he, Option.map_some]
    simp only [Option.some.injEq, eq_comm]

/-- Only a key that is there can be displaced. -/
theorem lookup_evicted {r : FifoRing κ ν n} {k : κ} (h : r.evicted = some k) : r.lookup k ≠ none := by
  unfold evicted at h
  split_ifs at h
  obtain ⟨e, he, rfl⟩ := Option.map_eq_some_iff.mp h
  rw [ne_eq, lookup_eq_none, not_not]
  exact List.mem_map_of_mem (List.mem_of_getElem? he)

end FifoRing

end Xpf
