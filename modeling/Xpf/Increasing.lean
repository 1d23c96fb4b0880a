/-
`Increasing.lean` -- the longest increasing subsequence of a list.

The textbook table: every item is given a longest increasing chain that ends with it,
made from the chains of the items in front, and the longest entry of the table wins. A
chain is kept with its last item in front, so that an entry is one cons on an older
one; its length is the `dp` entry of the usual two-array form and its tail the chain its
back pointer leads to.

`longest_sublist` and `longest_increasing` say that the result is an increasing
subsequence, `longest_length` that there is no longer one. Nothing here mentions a
program.
-/
import Mathlib

set_option autoImplicit false

namespace Xpf.Increasing

variable {α β : Type*} [LinearOrder β]

/-- The first of the longest candidates, `init` counting as one in front of them. -/
def keepLonger (init : List α) (candidates : List (List α)) : List α :=
  candidates.foldl (fun best c => if best.length < c.length then c else best) init

/-- The chain of `x` behind items with the given chains. -/
def chainTo (v : α → β) (front : List (List α)) (x : α) : List α :=
  keepLonger [x] ((front.filter fun c => c.head?.any fun y => v y < v x).map (x :: ·))

/-- The table. -/
def chains (v : α → β) (items : List α) : List (List α) :=
  items.foldl (fun front x => front ++ [chainTo v front x]) []

/-- The first of the longest increasing subsequences, by last item. -/
def longest (v : α → β) (items : List α) : List α := (keepLonger [] (chains v items)).reverse

/-! ## The longest candidate -/

theorem keepLonger_mem (init : List α) (candidates : List (List α)) :
    keepLonger init candidates = init ∨ keepLonger init candidates ∈ candidates := by
  induction candidates generalizing init with
  | nil => exact .inl rfl
  | cons c cs ih =>
    rw [keepLonger, List.foldl_cons, ← keepLonger]
    split_ifs
    · rcases ih c with h | h
      · rw [h]
        exact .inr List.mem_cons_self
      · exact .inr (List.mem_cons_of_mem _ h)
    · exact (ih init).imp id (List.mem_cons_of_mem _)

theorem keepLonger_length (init : List α) (candidates : List (List α)) :
    ∀ c ∈ init :: candidates, c.length ≤ (keepLonger init candidates).length := by
  induction candidates generalizing init with
  | nil =>
    intro c hc
    rw [List.mem_singleton.mp hc]
    exact Nat.le_refl _
  | cons d ds ih =>
    -- the round keeps the longer of `init` and `d`
    intro c hc
    rw [keepLonger, List.foldl_cons, ← keepLonger]
    split_ifs with hlt
    · have hd := ih d d List.mem_cons_self
      rcases List.mem_cons.mp hc with rfl | hc
      · omega
      · exact ih d c hc
    · have hinit := ih init init List.mem_cons_self
      rcases List.mem_cons.mp hc with rfl | hc
      · exact hinit
      · rcases List.mem_cons.mp hc with rfl | hc
        · omega
        · exact ih init c (List.mem_cons_of_mem _ hc)

/-! ## One entry of the table -/

variable {v : α → β}

/-- A chain is its item alone, or its item in front of an older chain that ends lower. -/
theorem chainTo_cases (front : List (List α)) (x : α) :
    chainTo v front x = [x]
      ∨ ∃ y t, y :: t ∈ front ∧ v y < v x ∧ chainTo v front x = x :: y :: t := by
  rcases keepLonger_mem [x]
    ((front.filter fun c => c.head?.any fun y => v y < v x).map (x :: ·)) with h | h
  · exact .inl h
  · obtain ⟨c, hc, heq⟩ := List.mem_map.mp h
    obtain ⟨hmem, hhead⟩ := List.mem_filter.mp hc
    cases c with
    | nil => cases hhead
    | cons y t => exact .inr ⟨y, t, hmem, of_decide_eq_true hhead, heq.symm⟩

/-- It is at least as long as any older chain it could be put in front of. -/
theorem chainTo_length {front : List (List α)} {x y : α} {t : List α} (hmem : y :: t ∈ front)
    (hlt : v y < v x) : t.length + 2 ≤ (chainTo v front x).length := by
  refine keepLonger_length [x] _ (x :: y :: t) (List.mem_cons_of_mem _ ?_)
  exact List.mem_map.mpr ⟨y :: t, List.mem_filter.mpr ⟨hmem, decide_eq_true hlt⟩, rfl⟩

theorem chains_append (items : List α) (x : α) :
    chains v (items ++ [x]) = chains v items ++ [chainTo v (chains v items) x] := by
  rw [chains, List.foldl_append, List.foldl_cons, List.foldl_nil, ← chains]

/-! ## The table -/

/-- Every entry is an increasing subsequence, read backwards. -/
theorem chains_sound (items : List α) :
    ∀ c ∈ chains v items, c.reverse.Sublist items ∧ c.Pairwise (fun a b => v b < v a) := by
  induction items using List.reverseRecOn with
  | nil => exact fun c hc => absurd hc List.not_mem_nil
  | append_singleton items x ih =>
    intro c hc
    rw [chains_append, List.mem_append, List.mem_singleton] at hc
    rcases hc with hc | rfl
    · exact ⟨(ih c hc).1.trans (List.sublist_append_left _ _), (ih c hc).2⟩
    · rcases chainTo_cases (v := v) (chains v items) x with h | ⟨y, t, hmem, hlt, h⟩
      · rw [h]
        exact ⟨List.sublist_append_right _ _, List.pairwise_singleton _ _⟩
      · obtain ⟨hsub, hpair⟩ := ih (y :: t) hmem
        rw [h, List.reverse_cons]
        refine ⟨hsub.append (List.Sublist.refl _), List.pairwise_cons.mpr ⟨?_, hpair⟩⟩
        intro z hz
        rcases List.mem_cons.mp hz with rfl | hz
        · exact hlt
        · exact lt_trans ((List.pairwise_cons.mp hpair).1 z hz) hlt

/-- Every increasing subsequence is matched by an entry that ends no higher and is no
shorter. -/
theorem chains_complete (items : List α) :
    ∀ (s : List α) (y : α), (s ++ [y]).Sublist items → (s ++ [y]).Pairwise (fun a b => v a < v b) →
      ∃ z t, z :: t ∈ chains v items ∧ v z ≤ v y ∧ s.length ≤ t.length := by
  induction items using List.reverseRecOn with
  | nil =>
    intro s y hsub _
    exact absurd (List.sublist_nil.mp hsub) (by simp)
  | append_singleton items x ih =>
    intro s y hsub hpair
    rw [chains_append]
    by_cases hold : (s ++ [y]).Sublist items
    · obtain ⟨z, t, hmem, hle, hlen⟩ := ih s y hold hpair
      exact ⟨z, t, List.mem_append_left _ hmem, hle, hlen⟩
    · -- the subsequence uses the new item, so it ends with it
      obtain ⟨s', last, heq, hs', hlast⟩ := List.sublist_append_iff.mp hsub
      have hxy : s' = s ∧ y = x := by
        rcases List.sublist_singleton.mp hlast with rfl | rfl
        · rw [List.append_nil] at heq
          exact absurd (heq ▸ hs') hold
        · have := List.append_inj' heq rfl
          exact ⟨this.1.symm, List.singleton_inj.mp this.2⟩
      obtain ⟨rfl, rfl⟩ := hxy
      rcases List.eq_nil_or_concat s' with rfl | ⟨u, w, rfl⟩
      · rcases chainTo_cases (v := v) (chains v items) y with h | ⟨z, t, -, -, h⟩
        · exact ⟨y, [], List.mem_append_right _ (List.mem_singleton.mpr h.symm), le_refl _,
            Nat.zero_le _⟩
        · exact ⟨y, z :: t, List.mem_append_right _ (List.mem_singleton.mpr h.symm), le_refl _,
            Nat.zero_le _⟩
      · rw [List.concat_eq_append] at hs' hpair ⊢
        have hwy : v w < v y :=
          (List.pairwise_append.mp hpair).2.2 w (by simp) y (List.mem_singleton_self y)
        obtain ⟨z, t, hmem, hle, hlen⟩ := ih u w hs' (List.pairwise_append.mp hpair).1
        have hlong := chainTo_length (v := v) hmem (lt_of_le_of_lt hle hwy)
        rcases chainTo_cases (v := v) (chains v items) y with h | ⟨z', t', -, -, h⟩
        · rw [h] at hlong
          simp at hlong
        · refine ⟨y, z' :: t', List.mem_append_right _ (List.mem_singleton.mpr h.symm), le_refl _, ?_⟩
          rw [h] at hlong
          simp only [List.length_append, List.length_cons, List.length_nil] at hlong ⊢
          omega

/-! ## The longest increasing subsequence -/

theorem longest_sublist (v : α → β) (items : List α) : (longest v items).Sublist items := by
  rcases keepLonger_mem [] (chains v items) with h | h
  · rw [longest, h]
    exact List.nil_sublist _
  · exact (chains_sound items _ h).1

theorem longest_increasing (v : α → β) (items : List α) :
    (longest v items).Pairwise (fun a b => v a < v b) := by
  rcases keepLonger_mem [] (chains v items) with h | h
  · rw [longest, h]
    exact List.Pairwise.nil
  · exact List.pairwise_reverse.mpr (chains_sound items _ h).2

/-- **There is no longer increasing subsequence.** -/
theorem longest_length {items s : List α} (hsub : s.Sublist items)
    (hpair : s.Pairwise (fun a b => v a < v b)) : s.length ≤ (longest v items).length := by
  rcases List.eq_nil_or_concat s with rfl | ⟨u, y, rfl⟩
  · exact Nat.zero_le _
  · rw [List.concat_eq_append] at hsub hpair ⊢
    obtain ⟨z, t, hmem, -, hlen⟩ := chains_complete items u y hsub hpair
    have hbest := keepLonger_length [] (chains v items) (z :: t) (List.mem_cons_of_mem _ hmem)
    rw [longest, List.length_reverse, List.length_append, List.length_singleton]
    rw [List.length_cons] at hbest
    omega

/-- Everything is on it exactly when the items are increasing already. -/
theorem longest_eq_self_iff {items : List α} :
    longest v items = items ↔ items.Pairwise (fun a b => v a < v b) := by
  constructor
  · intro h
    exact h ▸ longest_increasing v items
  · intro h
    exact (longest_sublist v items).eq_of_length_le (longest_length (List.Sublist.refl _) h)

end Xpf.Increasing
