/-
`ConfigAlign.lean` -- what `alignSiblings` aligns.

The pairs it makes are a partial matching: no sibling stands in two pairs, and the two of
a pair have the same identity. Which pairs they are does not depend on the order in
which the map of identities is ranged over; only their order in the list does
(`pairs_perm`). Two lists are left without a single change exactly when they are equal
sibling by sibling (`unchanged_iff`).
-/
import Xpf.ConfigContent
import Mathlib.Data.List.Dedup

set_option autoImplicit false

namespace Xpf.ConfigAlign

open Xpf.GoStrings Xpf.ConfigAst Xpf.ConfigCompare Xpf.ConfigContent Xpf.Increasing

/-! ## The indices of one identity -/

theorem mem_indicesOf {id : Bytes} {nodes : List Node} {i : ℕ} :
    i ∈ indicesOf id nodes
      ↔ ∃ n, nodes[i]? = some n ∧ keyProvenanceID n.toNodeHead = id := by
  rw [indicesOf, List.mem_filter, List.mem_range, Option.any_eq_true]
  constructor
  · rintro ⟨-, n, hn, hid⟩
    exact ⟨n, hn, beq_iff_eq.mp hid⟩
  · rintro ⟨n, hn, hid⟩
    exact ⟨(List.getElem?_eq_some_iff.mp hn).1, n, hn, beq_iff_eq.mpr hid⟩

theorem indicesOf_nodup (id : Bytes) (nodes : List Node) : (indicesOf id nodes).Nodup :=
  List.nodup_range.filter _

theorem mem_identities {nodes : List Node} {n : Node} (h : n ∈ nodes) :
    keyProvenanceID n.toNodeHead ∈ identities nodes :=
  List.mem_dedup.mpr (List.mem_map_of_mem h)

/-! ## The pairs of one identity -/

section

variable {equal : ℕ → ℕ → Bool} {news : List ℕ}

theorem equalPairs_snd (used olds : List ℕ) :
    ((equalPairs equal news used olds).map (·.2)).Nodup
      ∧ ∀ p ∈ equalPairs equal news used olds, p.2 ∈ news ∧ p.2 ∉ used := by
  induction olds generalizing used with
  | nil => exact ⟨List.nodup_nil, fun p hp => absurd hp List.not_mem_nil⟩
  | cons oi olds ih =>
    rw [equalPairs]
    split
    · rename_i ni hfind
      obtain ⟨hnodup, hmem⟩ := ih (ni :: used)
      have hni : ni ∈ news ∧ ni ∉ used := by
        refine ⟨List.mem_of_find?_eq_some hfind, ?_⟩
        have := List.find?_some hfind
        simp only [Bool.and_eq_true, Bool.not_eq_true', List.contains_eq_mem,
          decide_eq_false_iff_not] at this
        exact this.1
      constructor
      · rw [List.map_cons, List.nodup_cons]
        refine ⟨fun hin => ?_, hnodup⟩
        obtain ⟨q, hq, hqni⟩ := List.mem_map.mp hin
        exact (hmem q hq).2 (hqni ▸ List.mem_cons_self)
      · intro p hp
        rcases List.mem_cons.mp hp with rfl | hp
        · exact hni
        · exact ⟨(hmem p hp).1, fun hu => (hmem p hp).2 (List.mem_cons_of_mem _ hu)⟩
    · exact ih used

variable {paired : List (ℕ × ℕ)}

theorem find_oldIdx {oi : ℕ} {p : ℕ × ℕ} (h : paired.find? (·.1 == oi) = some p) : p.1 = oi := by
  have hp := List.find?_some h
  simpa using hp

theorem restPairs_fst (left olds : List ℕ) :
    ((restPairs paired left olds).map (·.1)).Sublist olds := by
  induction olds generalizing left with
  | nil => exact List.Sublist.refl _
  | cons oi olds ih =>
    unfold restPairs
    split
    · rename_i p hfind
      have hp : p.1 = oi := find_oldIdx hfind
      rw [List.map_cons, hp]
      exact (ih left).cons_cons oi
    · split
      · exact (ih []).cons oi
      · exact (ih _).cons_cons oi

/-- Every pair is one of the equal ones or takes a new index that was left. -/
theorem restPairs_mem {left olds : List ℕ} {p : ℕ × ℕ} (h : p ∈ restPairs paired left olds) :
    p ∈ paired ∨ p.2 ∈ left := by
  induction olds generalizing left with
  | nil => exact absurd h List.not_mem_nil
  | cons oi olds ih =>
    unfold restPairs at h
    split at h
    · rename_i q hfind
      rcases List.mem_cons.mp h with rfl | h
      · exact .inl (List.mem_of_find?_eq_some hfind)
      · exact ih h
    · split at h
      · exact ih h
      · rcases List.mem_cons.mp h with rfl | h
        · exact .inr List.mem_cons_self
        · exact (ih h).imp id (List.mem_cons_of_mem _)

theorem restPairs_snd (hpaired : (paired.map (·.2)).Nodup) (left olds : List ℕ) (holds : olds.Nodup)
    (hleft : left.Nodup) (hdisj : ∀ p ∈ paired, p.2 ∉ left) :
    ((restPairs paired left olds).map (·.2)).Nodup := by
  induction olds generalizing left with
  | nil => exact List.nodup_nil
  | cons oi olds ih =>
    obtain ⟨hoi, holds⟩ := List.nodup_cons.mp holds
    unfold restPairs
    split
    · rename_i p hfind
      have hp := List.mem_of_find?_eq_some hfind
      have hpoi : p.1 = oi := find_oldIdx hfind
      rw [List.map_cons, List.nodup_cons]
      refine ⟨fun hin => ?_, ih left holds hleft hdisj⟩
      obtain ⟨q, hq, hqp⟩ := List.mem_map.mp hin
      rcases restPairs_mem hq with hmem | hmem
      · -- an equal pair with this new index is this pair, but its old index is behind
        have hqp' : q = p := List.inj_on_of_nodup_map hpaired hmem hp hqp
        have hq1 : q.1 ∈ olds := (restPairs_fst left olds).subset (List.mem_map_of_mem hq)
        rw [hqp', hpoi] at hq1
        exact hoi hq1
      · exact hdisj p hp (hqp ▸ hmem)
    · split
      · exact ih [] holds hleft hdisj
      · rename_i ni left
        obtain ⟨hni, hleft⟩ := List.nodup_cons.mp hleft
        have hdisj' : ∀ p ∈ paired, p.2 ∉ left :=
          fun p hp hin => hdisj p hp (List.mem_cons_of_mem _ hin)
        rw [List.map_cons, List.nodup_cons]
        refine ⟨fun hin => ?_, ih left holds hleft hdisj'⟩
        obtain ⟨q, hq, hqni⟩ := List.mem_map.mp hin
        rcases restPairs_mem hq with hmem | hmem
        · exact hdisj q hmem (hqni ▸ List.mem_cons_self)
        · have hqni : q.2 = ni := hqni
          exact hni (hqni ▸ hmem)

end

/-- The pairs of one identity are a partial matching of its indices. -/
theorem groupPairs_spec (equal : ℕ → ℕ → Bool) {olds news : List ℕ} (holds : olds.Nodup)
    (hnews : news.Nodup) :
    ((groupPairs equal olds news).map (·.1)).Sublist olds
      ∧ ((groupPairs equal olds news).map (·.2)).Nodup
      ∧ ∀ p ∈ groupPairs equal olds news, p.2 ∈ news := by
  obtain ⟨hnodup, hmem⟩ : ((equalPairs equal news [] olds).map (·.2)).Nodup
      ∧ ∀ p ∈ equalPairs equal news [] olds, p.2 ∈ news ∧ p.2 ∉ ([] : List ℕ) := equalPairs_snd [] olds
  refine ⟨restPairs_fst _ _, restPairs_snd hnodup _ _ holds (hnews.filter _) ?_, ?_⟩
  · intro p hp hin
    have := (List.mem_filter.mp hin).2
    simp only [Bool.not_eq_true', List.contains_eq_mem, decide_eq_false_iff_not] at this
    exact this (List.mem_map_of_mem hp)
  · intro p hp
    rcases restPairs_mem hp with h | h
    · exact (hmem p h).1
    · exact List.mem_of_mem_filter h

/-! ## All pairs -/

section

variable {order : List Bytes → List Bytes} {old new : List Node}

theorem pairs_eq (order : List Bytes → List Bytes) (old new : List Node) :
    (alignSiblings order old new).pairs = (order (identities old)).flatMap fun id =>
      groupPairs (equalAt old new) (indicesOf id old) (indicesOf id new) := rfl

/-- The two of a pair have the same identity. -/
theorem pairs_mem {p : ℕ × ℕ} (h : p ∈ (alignSiblings order old new).pairs) :
    ∃ o n, old[p.1]? = some o ∧ new[p.2]? = some n
      ∧ keyProvenanceID o.toNodeHead = keyProvenanceID n.toNodeHead := by
  obtain ⟨id, -, hp⟩ := List.mem_flatMap.mp h
  obtain ⟨hfst, -, hsnd⟩ := groupPairs_spec (equalAt old new) (indicesOf_nodup id old)
    (indicesOf_nodup id new)
  obtain ⟨o, ho, hoid⟩ := mem_indicesOf.mp (hfst.subset (List.mem_map_of_mem hp))
  obtain ⟨n, hn, hnid⟩ := mem_indicesOf.mp (hsnd p hp)
  exact ⟨o, n, ho, hn, hoid.trans hnid.symm⟩

variable (hperm : (order (identities old)).Perm (identities old))
include hperm

theorem order_nodup : (order (identities old)).Nodup :=
  hperm.nodup_iff.mpr (List.nodup_dedup _)

theorem pairs_fst_nodup : ((alignSiblings order old new).pairs.map (·.1)).Nodup := by
  rw [pairs_eq, List.map_flatMap, List.nodup_flatMap]
  constructor
  · intro id _
    exact (groupPairs_spec (equalAt old new) (indicesOf_nodup id old)
      (indicesOf_nodup id new)).1.nodup (indicesOf_nodup id old)
  · refine (order_nodup hperm).imp fun {id id'} hne => ?_
    refine List.disjoint_left.mpr fun i hi hi' => hne ?_
    have hfst := fun id => (groupPairs_spec (equalAt old new) (indicesOf_nodup id old)
      (indicesOf_nodup id new)).1
    obtain ⟨o, ho, hid⟩ := mem_indicesOf.mp ((hfst id).subset hi)
    obtain ⟨o', ho', hid'⟩ := mem_indicesOf.mp ((hfst id').subset hi')
    rw [← hid, ← hid', Option.some.inj (ho.symm.trans ho')]

theorem pairs_snd_nodup : ((alignSiblings order old new).pairs.map (·.2)).Nodup := by
  rw [pairs_eq, List.map_flatMap, List.nodup_flatMap]
  have hspec := fun id => (groupPairs_spec (equalAt old new) (indicesOf_nodup id old)
    (indicesOf_nodup id new)).2
  constructor
  · exact fun id _ => (hspec id).1
  · refine (order_nodup hperm).imp fun {id id'} hne => ?_
    refine List.disjoint_left.mpr fun i hi hi' => hne ?_
    obtain ⟨p, hp, rfl⟩ := List.mem_map.mp hi
    obtain ⟨q, hq, hqp⟩ := List.mem_map.mp hi'
    obtain ⟨n, hn, hid⟩ := mem_indicesOf.mp ((hspec id).2 p hp)
    obtain ⟨n', hn', hid'⟩ := mem_indicesOf.mp ((hspec id').2 q hq)
    rw [hqp] at hn'
    rw [← hid, ← hid', Option.some.inj (hn.symm.trans hn')]

end

/-! ## Moves -/

/-- The pairs in old order, as `markMovedPairs` sorts them. -/
def inOldOrder (pairs : List (ℕ × ℕ)) : List (ℕ × ℕ) := pairs.insertionSort fun x y => x.1 ≤ y.1

theorem inOldOrder_perm (pairs : List (ℕ × ℕ)) : (inOldOrder pairs).Perm pairs :=
  List.perm_insertionSort _ pairs

theorem inOldOrder_sorted (pairs : List (ℕ × ℕ)) :
    (inOldOrder pairs).Pairwise fun x y => x.1 ≤ y.1 := by
  have : Std.Total fun x y : ℕ × ℕ => x.1 ≤ y.1 := ⟨fun x y => Nat.le_total x.1 y.1⟩
  have : IsTrans (ℕ × ℕ) fun x y => x.1 ≤ y.1 := ⟨fun _ _ _ => Nat.le_trans⟩
  exact List.pairwise_insertionSort _ pairs

/-- Sorting by distinct old indices forgets the order of the pairs. -/
theorem inOldOrder_congr {pairs pairs' : List (ℕ × ℕ)} (h : pairs.Perm pairs')
    (hnodup : (pairs.map (·.1)).Nodup) : inOldOrder pairs = inOldOrder pairs' := by
  have hperm : (inOldOrder pairs).Perm (inOldOrder pairs') :=
    (inOldOrder_perm pairs).trans (h.trans (inOldOrder_perm pairs').symm)
  refine hperm.eq_of_pairwise (fun p q hp hq hpq hqp => ?_) (inOldOrder_sorted pairs)
    (inOldOrder_sorted pairs')
  have hp := (inOldOrder_perm pairs).mem_iff.mp hp
  have hq := h.mem_iff.mpr ((inOldOrder_perm pairs').mem_iff.mp hq)
  exact List.inj_on_of_nodup_map hnodup hp hq (Nat.le_antisymm hpq hqp)

/-- **No pair is a move exactly when the new indices increase with the old ones.** -/
theorem onLis_all_iff {pairs : List (ℕ × ℕ)} (hnodup : (pairs.map (·.1)).Nodup) :
    (∀ p ∈ pairs, p.1 ∈ onLis pairs) ↔ (inOldOrder pairs).Pairwise fun x y => x.2 < y.2 := by
  rw [← longest_eq_self_iff (v := fun p : ℕ × ℕ => p.2)]
  constructor
  · intro h
    -- every old index is on the subsequence, so it is as long as the list
    have hsub := longest_sublist (fun p : ℕ × ℕ => p.2) (inOldOrder pairs)
    have hnodup' : ((inOldOrder pairs).map (·.1)).Nodup :=
      ((inOldOrder_perm pairs).map _).nodup_iff.mpr hnodup
    have hsubset : (inOldOrder pairs).map (·.1) ⊆ onLis pairs := by
      intro i hi
      obtain ⟨p, hp, rfl⟩ := List.mem_map.mp hi
      exact h p ((inOldOrder_perm pairs).mem_iff.mp hp)
    have hlen := (List.subperm_of_subset hnodup' hsubset).length_le
    rw [onLis, List.length_map, List.length_map] at hlen
    exact hsub.eq_of_length_le hlen
  · intro h p hp
    rw [onLis, ← inOldOrder, h]
    exact List.mem_map_of_mem ((inOldOrder_perm pairs).mem_iff.mpr hp)

/-! ## Two lists that agree sibling by sibling -/

section

variable {equal : ℕ → ℕ → Bool}

theorem equalPairs_self {news : List ℕ} : ∀ (done todo used : List ℕ), news = done ++ todo →
    news.Nodup → (∀ i ∈ todo, equal i i = true) → (∀ i, i ∈ used ↔ i ∈ done) →
    equalPairs equal news used todo = todo.map fun i => (i, i) := by
  intro done todo
  induction todo generalizing done with
  | nil => exact fun used _ _ _ _ => rfl
  | cons oi todo ih =>
    intro used hnews hnodup hequal hused
    -- what stands in front of `oi` is used up, and `oi` itself is equal and free
    have hfree : oi ∉ done := by
      rw [hnews] at hnodup
      exact fun hin => (List.nodup_append.mp hnodup).2.2 oi hin oi List.mem_cons_self rfl
    have hfront : done.find? (fun ni => !used.contains ni && equal oi ni) = none := by
      rw [List.find?_eq_none]
      intro ni hni
      simp only [List.contains_eq_mem, (hused ni).mpr hni, decide_true, Bool.not_true,
        Bool.false_and, Bool.false_eq_true, not_false_eq_true]
    have hfind : news.find? (fun ni => !used.contains ni && equal oi ni) = some oi := by
      rw [hnews, List.find?_append, hfront, Option.none_or, List.find?_cons_of_pos]
      simp only [List.contains_eq_mem, mt (hused oi).mp hfree, decide_false, Bool.not_false,
        hequal oi List.mem_cons_self, Bool.and_self]
    rw [equalPairs, hfind, List.map_cons]
    dsimp only
    refine congrArg ((oi, oi) :: ·) (ih (done ++ [oi]) (oi :: used) ?_ hnodup ?_ ?_)
    · rw [hnews, List.append_assoc, List.singleton_append]
    · exact fun i hi => hequal i (List.mem_cons_of_mem _ hi)
    · intro i
      rw [List.mem_cons, List.mem_append, List.mem_singleton, hused i, or_comm]

theorem restPairs_self {all : List ℕ} (left : List ℕ) : ∀ olds : List ℕ, olds ⊆ all →
    restPairs (all.map fun i => (i, i)) left olds = olds.map fun i => (i, i) := by
  intro olds
  induction olds with
  | nil => exact fun _ => rfl
  | cons oi olds ih =>
    intro hsub
    obtain ⟨hoi, hsub⟩ := List.cons_subset.mp hsub
    have hfind : (all.map fun i => (i, i)).find? (·.1 == oi) = some (oi, oi) := by
      cases hf : (all.map fun i => (i, i)).find? (·.1 == oi) with
      | none =>
        have := List.find?_eq_none.mp hf (oi, oi) (List.mem_map_of_mem (f := fun i => (i, i)) hoi)
        exact absurd (beq_self_eq_true oi) this
      | some p =>
        obtain ⟨i, -, rfl⟩ := List.mem_map.mp (List.mem_of_find?_eq_some hf)
        have hi : i = oi := find_oldIdx hf
        rw [hi]
    unfold restPairs
    rw [hfind, List.map_cons, ih hsub]

theorem groupPairs_self {olds : List ℕ} (hnodup : olds.Nodup) (hequal : ∀ i ∈ olds, equal i i = true) :
    groupPairs equal olds olds = olds.map fun i => (i, i) := by
  have hpairs : equalPairs equal olds [] olds = olds.map fun i => (i, i) :=
    equalPairs_self [] olds [] rfl hnodup hequal fun i => Iff.rfl
  rw [groupPairs, hpairs]
  exact restPairs_self _ olds (List.Subset.refl olds)

end

/-- The sibling lists are equal position by position. -/
def SameSiblings (old new : List Node) : Prop :=
  old.length = new.length
    ∧ ∀ (i : ℕ) (o n : Node), old[i]? = some o → new[i]? = some n → nodesEqual o n = true

theorem nodesEqual_id {o n : Node} (h : nodesEqual o n = true) :
    keyProvenanceID o.toNodeHead = keyProvenanceID n.toNodeHead := by
  rw [nodesEqual_eq] at h
  simp only [headsEqual, Bool.and_eq_true, beq_iff_eq, and_assoc] at h
  exact (keyProvenanceID_eq_iff _ _).mpr ⟨h.1, h.2.1⟩

section

variable {order : List Bytes → List Bytes} {old new : List Node}

theorem SameSiblings.indicesOf (h : SameSiblings old new) (id : Bytes) :
    indicesOf id new = indicesOf id old := by
  unfold ConfigCompare.indicesOf
  rw [← h.1]
  refine List.filter_congr fun i hi => ?_
  have hlt := List.mem_range.mp hi
  have ho := List.getElem?_eq_getElem hlt
  have hn := List.getElem?_eq_getElem (h.1 ▸ hlt)
  rw [ho, hn, Option.any_some, Option.any_some, nodesEqual_id (h.2 i _ _ ho hn)]

/-- Siblings that agree are paired with themselves. -/
theorem SameSiblings.pairs (h : SameSiblings old new) :
    (alignSiblings order old new).pairs
      = ((order (identities old)).flatMap fun id => ConfigCompare.indicesOf id old).map
          fun i => (i, i) := by
  rw [pairs_eq, List.map_flatMap]
  refine List.flatMap_congr fun id _ => ?_
  rw [h.indicesOf]
  refine groupPairs_self (indicesOf_nodup id old) fun i hi => ?_
  obtain ⟨o, ho, -⟩ := mem_indicesOf.mp hi
  have hn := List.getElem?_eq_getElem (h.1 ▸ (List.getElem?_eq_some_iff.mp ho).1)
  rw [equalAt, ho, hn]
  exact h.2 i o _ ho hn

theorem mem_movedOld {i : ℕ} :
    i ∈ (alignSiblings order old new).movedOld
      ↔ ∃ p ∈ (alignSiblings order old new).pairs,
          p.1 ∉ onLis (alignSiblings order old new).pairs ∧ p.1 = i := by
  rw [pairs_eq, alignSiblings]
  simp only [List.mem_map, List.mem_filter, List.contains_eq_mem, Bool.not_eq_true',
    decide_eq_false_iff_not, and_assoc]

theorem mem_movedNew {i : ℕ} :
    i ∈ (alignSiblings order old new).movedNew
      ↔ ∃ p ∈ (alignSiblings order old new).pairs,
          p.1 ∉ onLis (alignSiblings order old new).pairs ∧ p.2 = i := by
  rw [pairs_eq, alignSiblings]
  simp only [List.mem_map, List.mem_filter, List.contains_eq_mem, Bool.not_eq_true',
    decide_eq_false_iff_not, and_assoc]

theorem mem_oldOnly {i : ℕ} :
    i ∈ (alignSiblings order old new).oldOnly
      ↔ i < old.length ∧ i ∉ (alignSiblings order old new).pairs.map (·.1) := by
  rw [pairs_eq, alignSiblings]
  simp only [List.mem_filter, List.mem_range, List.contains_eq_mem, Bool.not_eq_true',
    decide_eq_false_iff_not]

theorem mem_newOnly {i : ℕ} :
    i ∈ (alignSiblings order old new).newOnly
      ↔ i < new.length ∧ i ∉ (alignSiblings order old new).pairs.map (·.2) := by
  rw [pairs_eq, alignSiblings]
  simp only [List.mem_filter, List.mem_range, List.contains_eq_mem, Bool.not_eq_true',
    decide_eq_false_iff_not]

/-- The entries are the pairs that moved or differ. -/
theorem mem_changedEntries {e : DiffEntry} :
    e ∈ changedEntries (alignSiblings order old new) old new
      ↔ ∃ ni, (e.oldIdx, ni) ∈ (alignSiblings order old new).pairs
        ∧ old[e.oldIdx]? = some e.oldNode ∧ new[ni]? = some e.newNode
        ∧ (e.moved = true ↔ e.oldIdx ∈ (alignSiblings order old new).movedOld)
        ∧ (e.moved = true ∨ nodesEqual e.oldNode e.newNode = false) := by
  rw [changedEntries, List.mem_filterMap]
  constructor
  · rintro ⟨⟨oi, ni⟩, hp, he⟩
    obtain ⟨o, n, ho, hn, -⟩ := pairs_mem hp
    dsimp only at ho hn
    rw [changedEntry, ho, hn] at he
    dsimp only at he
    split_ifs at he with hchanged
    obtain rfl := Option.some.inj he
    refine ⟨ni, hp, ho, hn, List.contains_iff_mem, ?_⟩
    simpa using hchanged
  · rintro ⟨ni, hp, ho, hn, hmoved, hchanged⟩
    refine ⟨(e.oldIdx, ni), hp, ?_⟩
    have hcontains : (alignSiblings order old new).movedOld.contains e.oldIdx = e.moved := by
      rw [Bool.eq_iff_iff, List.contains_iff_mem, hmoved]
    rw [changedEntry, ho, hn]
    dsimp only
    rw [hcontains, if_pos (by simpa using hchanged)]

theorem changedEntries_nil_iff :
    changedEntries (alignSiblings order old new) old new = []
      ↔ ∀ p ∈ (alignSiblings order old new).pairs,
          p.1 ∈ onLis (alignSiblings order old new).pairs
            ∧ ∀ o n, old[p.1]? = some o → new[p.2]? = some n → nodesEqual o n = true := by
  rw [changedEntries, List.filterMap_eq_nil_iff]
  refine forall₂_congr fun p hp => ?_
  obtain ⟨o, n, ho, hn, -⟩ := pairs_mem hp
  have hmoved : p.1 ∈ (alignSiblings order old new).movedOld
      ↔ p.1 ∉ onLis (alignSiblings order old new).pairs := by
    rw [mem_movedOld]
    constructor
    · rintro ⟨q, -, hq, hqp⟩
      exact hqp ▸ hq
    · exact fun h => ⟨p, hp, h, rfl⟩
  rw [changedEntry, ho, hn]
  dsimp only
  simp only [List.contains_eq_mem, Bool.or_eq_true, decide_eq_true_eq, Bool.not_eq_true', hmoved,
    ite_eq_right_iff, reduceCtorEq, imp_false, not_or, not_not, Bool.not_eq_false]
  refine and_congr_right fun _ => ⟨?_, fun h => h o n rfl rfl⟩
  intro h o' n' ho hn
  rw [← Option.some.inj ho, ← Option.some.inj hn]
  exact h

theorem descends_iff {al : SiblingAlignment} {entries : List DiffEntry} :
    descends al entries = true ↔ al.oldOnly = [] ∧ al.newOnly = []
      ∧ (∀ e ∈ entries, e.moved = false) ∧ ∀ e ∈ entries, e.recursable = true := by
  simp only [descends, hasMoveOrUnpaired, Bool.and_eq_true, Bool.not_eq_true', Bool.or_eq_false_iff,
    Bool.not_eq_false', List.isEmpty_iff, List.any_eq_false, List.all_eq_true, Bool.not_eq_true,
    and_assoc]

/-- A sorted list of all numbers below a bound. -/
theorem eq_range {l : List ℕ} {n : ℕ} (hnodup : l.Nodup) (hlt : ∀ i ∈ l, i < n)
    (hall : ∀ i < n, i ∈ l) (hsorted : l.Pairwise (· ≤ ·)) : l = List.range n := by
  have hperm : l.Perm (List.range n) := (List.perm_ext_iff_of_nodup hnodup List.nodup_range).mpr
    fun i => ⟨fun hi => List.mem_range.mpr (hlt i hi), fun hi => hall i (List.mem_range.mp hi)⟩
  refine hperm.eq_of_pairwise (fun i j _ _ => Nat.le_antisymm) hsorted ?_
  exact List.pairwise_lt_range.imp Nat.le_of_lt

section

variable (hperm : (order (identities old)).Perm (identities old))
include hperm

/-- When no sibling is left alone, the pairs run through the old list from the front. -/
theorem oldOrder_fst (hold : (alignSiblings order old new).oldOnly = []) :
    (inOldOrder (alignSiblings order old new).pairs).map (·.1) = List.range old.length := by
  have hsorted := inOldOrder_perm (alignSiblings order old new).pairs
  refine eq_range ((hsorted.map _).nodup_iff.mpr (pairs_fst_nodup hperm)) ?_ ?_ ?_
  · intro i hi
    obtain ⟨p, hp, rfl⟩ := List.mem_map.mp hi
    obtain ⟨o, n, ho, -⟩ := pairs_mem (hsorted.mem_iff.mp hp)
    exact (List.getElem?_eq_some_iff.mp ho).1
  · intro i hi
    refine (hsorted.map _).mem_iff.mpr ?_
    by_contra hin
    exact List.eq_nil_iff_forall_not_mem.mp hold i (mem_oldOnly.mpr ⟨hi, hin⟩)
  · exact List.pairwise_map.mpr (inOldOrder_sorted _)

/-- When moreover none moves, they run through the new list with it. -/
theorem oldOrder_snd (hnew : (alignSiblings order old new).newOnly = [])
    (hmoves : (inOldOrder (alignSiblings order old new).pairs).Pairwise fun x y => x.2 < y.2) :
    (inOldOrder (alignSiblings order old new).pairs).map (·.2) = List.range new.length := by
  have hsorted := inOldOrder_perm (alignSiblings order old new).pairs
  refine eq_range ((hsorted.map _).nodup_iff.mpr (pairs_snd_nodup hperm)) ?_ ?_ ?_
  · intro i hi
    obtain ⟨p, hp, rfl⟩ := List.mem_map.mp hi
    obtain ⟨o, n, -, hn, -⟩ := pairs_mem (hsorted.mem_iff.mp hp)
    exact (List.getElem?_eq_some_iff.mp hn).1
  · intro i hi
    refine (hsorted.map _).mem_iff.mpr ?_
    by_contra hin
    exact List.eq_nil_iff_forall_not_mem.mp hnew i (mem_newOnly.mpr ⟨hi, hin⟩)
  · exact List.pairwise_map.mpr (hmoves.imp Nat.le_of_lt)

theorem sameSiblings_of_unchanged (hentries : changedEntries (alignSiblings order old new) old new = [])
    (hold : (alignSiblings order old new).oldOnly = [])
    (hnew : (alignSiblings order old new).newOnly = []) : SameSiblings old new := by
  have hpairs := changedEntries_nil_iff.mp hentries
  have hmoves := (onLis_all_iff (pairs_fst_nodup hperm)).mp fun p hp => (hpairs p hp).1
  have hfst := oldOrder_fst hperm hold
  have hsnd := oldOrder_snd hperm hnew hmoves
  have hlen : old.length = new.length := by
    rw [← List.length_range (n := old.length), ← hfst, List.length_map,
      ← List.length_map (·.2), hsnd, List.length_range]
  refine ⟨hlen, fun i o n ho hn => ?_⟩
  have hi := (List.getElem?_eq_some_iff.mp ho).1
  have hmem : (i, i) ∈ inOldOrder (alignSiblings order old new).pairs := by
    have h1 := congrArg (·[i]?) hfst
    have h2 := congrArg (·[i]?) hsnd
    simp only [List.getElem?_map, List.getElem?_range hi, List.getElem?_range (hlen ▸ hi)] at h1 h2
    obtain ⟨p, hp, hp1⟩ := Option.map_eq_some_iff.mp h1
    obtain ⟨q, hq, hq2⟩ := Option.map_eq_some_iff.mp h2
    obtain rfl := Option.some.inj (hp.symm.trans hq)
    refine List.mem_iff_getElem?.mpr ⟨i, ?_⟩
    rw [hp]
    exact congrArg some (Prod.ext hp1 hq2)
  exact (hpairs _ ((inOldOrder_perm _).mem_iff.mp hmem)).2 o n ho hn

theorem SameSiblings.mem_pairs (h : SameSiblings old new) {i : ℕ} (hi : i < old.length) :
    (i, i) ∈ (alignSiblings order old new).pairs := by
  have ho := List.getElem?_eq_getElem hi
  rw [h.pairs]
  refine List.mem_map.mpr ⟨i, List.mem_flatMap.mpr ⟨_, ?_, mem_indicesOf.mpr ⟨_, ho, rfl⟩⟩, rfl⟩
  exact hperm.mem_iff.mpr (mem_identities (List.getElem_mem hi))

omit hperm in
theorem SameSiblings.diagonal (h : SameSiblings old new) {p : ℕ × ℕ}
    (hp : p ∈ (alignSiblings order old new).pairs) : p.1 = p.2 := by
  rw [h.pairs] at hp
  obtain ⟨i, -, rfl⟩ := List.mem_map.mp hp
  rfl

theorem SameSiblings.unmoved (h : SameSiblings old new) :
    (inOldOrder (alignSiblings order old new).pairs).Pairwise fun x y => x.2 < y.2 := by
  have hperm' := inOldOrder_perm (alignSiblings order old new).pairs
  have hnodup := (hperm'.map _).nodup_iff.mpr (pairs_fst_nodup hperm)
  have hlt : (inOldOrder (alignSiblings order old new).pairs).Pairwise fun x y => x.1 < y.1 :=
    ((inOldOrder_sorted _).and (List.pairwise_map.mp hnodup)).imp
      fun h => Nat.lt_of_le_of_ne h.1 h.2
  -- on the diagonal the new indices are the old ones
  refine hlt.imp_of_mem fun {p q} hp hq hpq => ?_
  rw [← h.diagonal (hperm'.mem_iff.mp hp), ← h.diagonal (hperm'.mem_iff.mp hq)]
  exact hpq

/-- **A level without changes** has equal siblings at every position. -/
theorem unchanged_iff :
    (changedEntries (alignSiblings order old new) old new = []
      ∧ (alignSiblings order old new).oldOnly = [] ∧ (alignSiblings order old new).newOnly = [])
      ↔ SameSiblings old new := by
  constructor
  · rintro ⟨hentries, hold, hnew⟩
    exact sameSiblings_of_unchanged hperm hentries hold hnew
  · intro h
    refine ⟨changedEntries_nil_iff.mpr fun p hp => ⟨?_, ?_⟩, ?_, ?_⟩
    · exact (onLis_all_iff (pairs_fst_nodup hperm)).mpr (h.unmoved hperm) p hp
    · intro o n ho hn
      refine h.2 p.1 o n ho ?_
      rw [h.diagonal hp, hn]
    · refine List.eq_nil_iff_forall_not_mem.mpr fun i hi => ?_
      obtain ⟨hlt, hin⟩ := mem_oldOnly.mp hi
      exact hin (List.mem_map_of_mem (h.mem_pairs hperm hlt))
    · refine List.eq_nil_iff_forall_not_mem.mpr fun i hi => ?_
      obtain ⟨hlt, hin⟩ := mem_newOnly.mp hi
      exact hin (List.mem_map_of_mem (h.mem_pairs hperm (h.1 ▸ hlt)))

end

end

end Xpf.ConfigAlign
