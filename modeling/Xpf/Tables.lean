/-
Hash tables as association lists with distinct keys, and the two ways of `entry`: a default
that is then changed (`upsert`), and a value that only the first writer stores (`orInsert`).

A table that a loop fills through `upsert` holds at each key the fold of the elements of
that key, in the order of the loop (`lookup_foldl_upsert`).
-/
import Mathlib.Data.List.AList
import Mathlib.Tactic.Common

set_option autoImplicit false

namespace Xpf.Tables

variable {κ ν α : Type} [DecidableEq κ]

/-- A hash table. -/
abbrev Table (κ ν : Type) := AList fun _ : κ => ν

/-- `get(k)`, with the default where the key is absent. -/
def getD (t : Table κ ν) (k : κ) (d : ν) : ν := (t.lookup k).getD d

/-- `f(entry(k).or_insert(d))`. -/
def upsert (t : Table κ ν) (k : κ) (d : ν) (f : ν → ν) : Table κ ν := t.insert k (f (getD t k d))

/-- `entry(k).or_insert(v)`. -/
def orInsert (t : Table κ ν) (k : κ) (v : ν) : Table κ ν :=
  if (t.lookup k).isSome then t else t.insert k v

/-- `is_empty`. -/
def isEmpty (t : Table κ ν) : Bool := t.entries.isEmpty

/-- `values().any(p)`. -/
def anyValue (t : Table κ ν) (p : ν → Bool) : Bool := t.entries.any fun e => p e.2

@[simp] theorem getD_empty (k : κ) (d : ν) : getD (∅ : Table κ ν) k d = d := rfl

theorem lookup_upsert (t : Table κ ν) (k k' : κ) (d : ν) (f : ν → ν) :
    (upsert t k d f).lookup k' = if k' = k then some (f (getD t k d)) else t.lookup k' := by
  rcases eq_or_ne k' k with rfl | hne
  · rw [if_pos rfl]
    exact AList.lookup_insert t
  · rw [if_neg hne]
    exact AList.lookup_insert_ne hne

theorem getD_upsert (t : Table κ ν) (k k' : κ) (d : ν) (f : ν → ν) :
    getD (upsert t k d f) k' d = if k' = k then f (getD t k d) else getD t k' d := by
  rw [getD, lookup_upsert]
  split_ifs <;> rfl

theorem lookup_orInsert (t : Table κ ν) (k k' : κ) (v : ν) :
    (orInsert t k v).lookup k' = (t.lookup k').or (if k' = k then some v else none) := by
  rw [orInsert]
  split_ifs with hsome hk hk
  · subst hk
    obtain ⟨x, hx⟩ := Option.isSome_iff_exists.mp hsome
    rw [hx]
    rfl
  · rw [Option.or_none]
  · subst hk
    rw [Option.not_isSome_iff_eq_none] at hsome
    rw [AList.lookup_insert, hsome]
    rfl
  · rw [AList.lookup_insert_ne hk, Option.or_none]

theorem lookup_isEmpty {t : Table κ ν} (h : isEmpty t = true) (k : κ) : t.lookup k = none := by
  have hentries : t.entries = [] := List.isEmpty_iff.mp h
  rw [AList.lookup, hentries]
  rfl

theorem anyValue_of_lookup {t : Table κ ν} {k : κ} {v : ν} {p : ν → Bool} (h : t.lookup k = some v)
    (hp : p v = true) : anyValue t p = true :=
  List.any_eq_true.mpr ⟨⟨k, v⟩, AList.mem_lookup_iff.mp h, hp⟩

/-! ## Tables filled by a loop -/

/-- **A filled table** holds at a key the fold of the elements of that key, in their order. -/
theorem lookup_foldl_upsert (key : α → κ) (d : ν) (f : α → ν → ν) (k : κ) :
    ∀ (l : List α) (t : Table κ ν),
    (l.foldl (fun t a => upsert t (key a) d (f a)) t).lookup k
      = if l.any (fun a => decide (key a = k))
        then some ((l.filter fun a => decide (key a = k)).foldl (fun v a => f a v) (getD t k d))
        else t.lookup k
  | [], t => rfl
  | a :: l, t => by
    rw [List.foldl_cons, lookup_foldl_upsert key d f k l, lookup_upsert, getD_upsert, List.any_cons,
      List.filter_cons]
    rcases eq_or_ne (key a) k with hk | hne
    · rw [if_pos (decide_eq_true hk), List.foldl_cons, if_pos hk.symm, if_pos hk.symm,
        decide_eq_true hk, Bool.true_or, if_pos rfl, hk]
      split_ifs with hany
      · rfl
      · -- the last element of its key: the rest of the loop leaves the entry alone
        have hnone : l.filter (fun a => decide (key a = k)) = [] := by
          rw [List.filter_eq_nil_iff]
          intro x hx hkx
          exact hany (List.any_eq_true.mpr ⟨x, hx, hkx⟩)
        rw [hnone, List.foldl_nil]
    · rw [decide_eq_false hne, if_neg Bool.false_ne_true, if_neg hne.symm, if_neg hne.symm,
        Bool.false_or]

end Xpf.Tables
