/-
What the edits that move nodes do to the tree as a whole.

`facts` lists what the tree says of each node: whose child it is, and its fields. An edit
of one slice changes the facts of that slice and no others (`facts_updateSlice`), so the
facts after an edit are those before it, less what left the slice and with what came in.
For `RenamePath` that is all of the argument but one case: a node that is moved into its
own subtree takes the destination with it.
-/
import Xpf.ConfigObjects
import Mathlib.Data.List.Nodup
import Mathlib.Data.List.Perm.Basic

set_option autoImplicit false

namespace Xpf.ConfigObjects

open Xpf.GoStrings Xpf.ConfigAst

/-! ## Facts -/

theorem facts_cons (parent : ℕ) (n : Obj) (rest : List Obj) :
    facts parent (n :: rest) = ⟨parent, n.id, n.head⟩ :: (facts n.id n.children ++ facts parent rest) := by
  obtain ⟨id, head, children⟩ := n
  rw [facts, Obj.facts, List.cons_append]

theorem Obj.eta (n : Obj) : (⟨n.id, n.head, n.children⟩ : Obj) = n := by
  cases n
  rfl

theorem facts_nil (parent : ℕ) : facts parent [] = [] := by
  rw [facts]

theorem facts_append (parent : ℕ) (as bs : List Obj) : facts parent (as ++ bs) = facts parent as ++ facts parent bs := by
  induction as with
  | nil => rw [List.nil_append, facts_nil, List.nil_append]
  | cons a as ih => rw [List.cons_append, facts_cons, facts_cons, ih, List.cons_append, List.append_assoc]

theorem facts_singleton (parent : ℕ) (n : Obj) : facts parent [n] = ⟨parent, n.id, n.head⟩ :: facts n.id n.children := by
  rw [facts_cons, facts_nil, List.append_nil]

/-- The identities do not depend on the owner. -/
theorem map_id_facts (parent : ℕ) (nodes : List Obj) : (facts parent nodes).map Fact.id = ids nodes := by
  unfold ids
  induction nodes with
  | nil => rw [facts_nil, facts_nil]
  | cons n rest ih =>
    rw [facts_cons, facts_cons, List.map_cons, List.map_cons, List.map_append, List.map_append, ih]

theorem ids_cons (n : Obj) (rest : List Obj) : ids (n :: rest) = n.id :: (ids n.children ++ ids rest) := by
  rw [← map_id_facts 0 (n :: rest), facts_cons, List.map_cons, List.map_append, map_id_facts, map_id_facts]

theorem ids_nil : ids [] = [] := by
  rw [← map_id_facts 0, facts_nil, List.map_nil]

theorem ids_append (as bs : List Obj) : ids (as ++ bs) = ids as ++ ids bs := by
  rw [← map_id_facts 0 (as ++ bs), facts_append, List.map_append, map_id_facts, map_id_facts]

theorem id_mem_ids {n : Obj} {nodes : List Obj} (h : n ∈ nodes) : n.id ∈ ids nodes := by
  obtain ⟨front, back, rfl⟩ := List.append_of_mem h
  rw [ids_append, ids_cons]
  exact List.mem_append_right _ List.mem_cons_self

theorem ids_children_subset {n : Obj} {nodes : List Obj} (h : n ∈ nodes) {i : ℕ} (hi : i ∈ ids n.children) :
    i ∈ ids nodes := by
  obtain ⟨front, back, rfl⟩ := List.append_of_mem h
  rw [ids_append, ids_cons]
  exact List.mem_append_right _ (List.mem_cons_of_mem _ (List.mem_append_left _ hi))

/-! ## Updates -/

section Updates

variable {owner : ℕ} {f : List Obj → List Obj} {nodes : List Obj}

theorem updateChildren_cons (owner : ℕ) (f : List Obj → List Obj) (n : Obj) (rest : List Obj) :
    updateChildren owner f (n :: rest)
      = ⟨n.id, n.head, if n.id = owner then f n.children else updateChildren owner f n.children⟩
        :: updateChildren owner f rest := by
  obtain ⟨id, head, children⟩ := n
  rw [updateChildren, Obj.updateChildren]

theorem updateChildren_nil (owner : ℕ) (f : List Obj → List Obj) : updateChildren owner f [] = [] := by
  rw [updateChildren]

/-- A node the tree does not reach is out of the reach of an update. -/
theorem updateChildren_of_notMem (h : owner ∉ ids nodes) : updateChildren owner f nodes = nodes := by
  revert h
  refine objects_induction (motive := fun nodes => owner ∉ ids nodes → updateChildren owner f nodes = nodes) ?_ ?_ nodes
  · exact fun _ => updateChildren_nil owner f
  · intro n rest ihc ihr h
    rw [ids_cons, List.mem_cons, List.mem_append, not_or, not_or] at h
    rw [updateChildren_cons, if_neg (fun heq => h.1 heq.symm), ihc h.2.1, ihr h.2.2, n.eta]

/-- A node of the tree owns the slice. -/
inductive Owns (owner : ℕ) (slice : List Obj) : List Obj → Prop where
  | own {n : Obj} {nodes : List Obj} (hn : n ∈ nodes) (hid : n.id = owner) (hslice : n.children = slice) :
      Owns owner slice nodes
  | deeper {n : Obj} {nodes : List Obj} (hn : n ∈ nodes) (h : Owns owner slice n.children) : Owns owner slice nodes

theorem owns_cons {slice : List Obj} {n : Obj} {rest : List Obj} :
    Owns owner slice (n :: rest)
      ↔ (n.id = owner ∧ n.children = slice) ∨ Owns owner slice n.children ∨ Owns owner slice rest := by
  constructor
  · rintro (⟨hn, hid, hslice⟩ | ⟨hn, h⟩)
    · rcases List.mem_cons.1 hn with rfl | hn
      · exact .inl ⟨hid, hslice⟩
      · exact .inr (.inr (.own hn hid hslice))
    · rcases List.mem_cons.1 hn with rfl | hn
      · exact .inr (.inl h)
      · exact .inr (.inr (.deeper hn h))
  · rintro (⟨hid, hslice⟩ | h | ⟨hn, hid, hslice⟩ | ⟨hn, h⟩)
    · exact .own List.mem_cons_self hid hslice
    · exact .deeper List.mem_cons_self h
    · exact .own (List.mem_cons_of_mem _ hn) hid hslice
    · exact .deeper (List.mem_cons_of_mem _ hn) h

theorem Owns.mem_ids {slice : List Obj} (h : Owns owner slice nodes) : owner ∈ ids nodes := by
  induction h with
  | own hn hid _ => exact hid ▸ id_mem_ids hn
  | deeper hn _ ih => exact ids_children_subset hn ih

theorem Owns.exists (h : owner ∈ ids nodes) : ∃ slice, Owns owner slice nodes := by
  revert h
  refine objects_induction (motive := fun nodes => owner ∈ ids nodes → ∃ slice, Owns owner slice nodes) ?_ ?_ nodes
  · intro h
    rw [ids_nil] at h
    exact absurd h List.not_mem_nil
  · intro n rest ihc ihr h
    rw [ids_cons, List.mem_cons, List.mem_append] at h
    rcases h with rfl | h | h
    · exact ⟨n.children, owns_cons.2 (.inl ⟨rfl, rfl⟩)⟩
    · obtain ⟨slice, hslice⟩ := ihc h
      exact ⟨slice, owns_cons.2 (.inr (.inl hslice))⟩
    · obtain ⟨slice, hslice⟩ := ihr h
      exact ⟨slice, owns_cons.2 (.inr (.inr hslice))⟩

/-- The facts of a slice and the rest of the tree: an update of the slice leaves the rest. -/
theorem facts_updateChildren {slice : List Obj} (h : Owns owner slice nodes) (hnodup : (ids nodes).Nodup) (parent : ℕ) :
    ∃ others, (facts parent nodes).Perm (facts owner slice ++ others)
      ∧ ∀ f, (facts parent (updateChildren owner f nodes)).Perm (facts owner (f slice) ++ others) := by
  revert h hnodup parent
  refine objects_induction (motive := fun nodes => Owns owner slice nodes → (ids nodes).Nodup → ∀ parent, ∃ others,
    (facts parent nodes).Perm (facts owner slice ++ others)
      ∧ ∀ f, (facts parent (updateChildren owner f nodes)).Perm (facts owner (f slice) ++ others)) ?_ ?_ nodes
  · rintro (⟨hn, -, -⟩ | ⟨hn, -⟩) <;> exact absurd hn List.not_mem_nil
  · intro n rest ihc ihr h hnodup parent
    rw [ids_cons, List.nodup_cons, List.nodup_append] at hnodup
    obtain ⟨hn, hchildren, hrest, hapart⟩ := hnodup
    rw [List.mem_append, not_or] at hn
    rcases owns_cons.1 h with ⟨rfl, rfl⟩ | h | h
    · -- the slice is the node's own
      refine ⟨⟨parent, n.id, n.head⟩ :: facts parent rest, ?_, fun f => ?_⟩
      · rw [facts_cons]
        exact List.perm_middle.symm
      · rw [updateChildren_cons, if_pos rfl, updateChildren_of_notMem hn.2, facts_cons]
        exact List.perm_middle.symm
    · have hmem := h.mem_ids
      have hne : ¬ n.id = owner := fun heq => hn.1 (heq ▸ hmem)
      have hout : owner ∉ ids rest := fun hr => hapart owner hmem owner hr rfl
      obtain ⟨others, hperm, hupdate⟩ := ihc h hchildren n.id
      refine ⟨⟨parent, n.id, n.head⟩ :: (others ++ facts parent rest), ?_, fun f => ?_⟩
      · rw [facts_cons]
        refine ((hperm.append_right _).cons _).trans ?_
        rw [List.append_assoc]
        exact List.perm_middle.symm
      · rw [updateChildren_cons, if_neg hne, updateChildren_of_notMem hout, facts_cons]
        refine (((hupdate f).append_right _).cons _).trans ?_
        rw [List.append_assoc]
        exact List.perm_middle.symm
    · have hmem := h.mem_ids
      have hne : ¬ n.id = owner := fun heq => hn.2 (heq ▸ hmem)
      have hout : owner ∉ ids n.children := fun hc => hapart owner hc owner hmem rfl
      obtain ⟨others, hperm, hupdate⟩ := ihr h hrest parent
      have hmove : ∀ slice', (⟨parent, n.id, n.head⟩ :: (facts n.id n.children ++ (facts owner slice' ++ others))).Perm
          (facts owner slice' ++ ⟨parent, n.id, n.head⟩ :: (facts n.id n.children ++ others)) := by
        intro slice'
        refine (List.Perm.cons _ ?_).trans List.perm_middle.symm
        rw [← List.append_assoc, ← List.append_assoc]
        exact List.perm_append_comm.append_right _
      refine ⟨⟨parent, n.id, n.head⟩ :: (facts n.id n.children ++ others), ?_, fun f => ?_⟩
      · rw [facts_cons]
        exact ((hperm.append_left _).cons _).trans (hmove slice)
      · rw [updateChildren_cons, if_neg hne, updateChildren_of_notMem hout, facts_cons]
        exact (((hupdate f).append_left _).cons _).trans (hmove (f slice))

theorem Owns.child {slice : List Obj} (h : Owns owner slice nodes) {c : Obj} (hc : c ∈ slice) :
    Owns c.id c.children nodes := by
  induction h with
  | own hn _ hslice => exact .deeper hn (.own (hslice ▸ hc) rfl rfl)
  | deeper hn _ ih => exact .deeper hn ih

/-- The slice is the tree's own or a node's. -/
def Slice (roots : List Obj) (owner : ℕ) (slice : List Obj) : Prop :=
  (owner = 0 ∧ slice = roots) ∨ Owns owner slice roots

theorem Slice.child {roots slice : List Obj} (h : Slice roots owner slice) {c : Obj} (hc : c ∈ slice) :
    Slice roots c.id c.children := by
  rcases h with ⟨-, rfl⟩ | h
  · exact .inr (.own hc rfl rfl)
  · exact .inr (h.child hc)

theorem facts_updateSlice {roots slice : List Obj} (h : Slice roots owner slice) (hnodup : (ids roots).Nodup)
    (hzero : 0 ∉ ids roots) :
    ∃ others, (facts 0 roots).Perm (facts owner slice ++ others)
      ∧ ∀ f, (facts 0 (updateSlice owner f roots)).Perm (facts owner (f slice) ++ others) := by
  rcases h with ⟨rfl, rfl⟩ | h
  · refine ⟨[], ?_, fun f => ?_⟩
    · rw [List.append_nil]
    · rw [updateSlice, if_pos rfl, List.append_nil]
  · have hne : owner ≠ 0 := fun heq => hzero (heq ▸ h.mem_ids)
    obtain ⟨others, hperm, hupdate⟩ := facts_updateChildren h hnodup 0
    refine ⟨others, hperm, fun f => ?_⟩
    rw [updateSlice, if_neg hne]
    exact hupdate f

/-- What is appended to a slice the tree reaches is new in the tree. -/
theorem facts_appendSlice {roots : List Obj} (h : owner = 0 ∨ owner ∈ ids roots) (hnodup : (ids roots).Nodup)
    (hzero : 0 ∉ ids roots) (n : Obj) :
    (facts 0 (updateSlice owner (· ++ [n]) roots)).Perm (facts 0 roots ++ facts owner [n]) := by
  have hslice : ∃ slice, Slice roots owner slice := by
    rcases h with rfl | h
    · exact ⟨roots, .inl ⟨rfl, rfl⟩⟩
    · exact (Owns.exists h).imp fun _ => .inr
  obtain ⟨slice, hslice⟩ := hslice
  obtain ⟨others, hperm, hupdate⟩ := facts_updateSlice hslice hnodup hzero
  refine (hupdate _).trans ?_
  rw [facts_append, List.append_assoc]
  refine (List.perm_append_comm.append_left _).trans ?_
  rw [← List.append_assoc]
  exact hperm.symm.append_right _

end Updates

/-- An object the tree does not reach takes nothing into it. -/
theorem updateSlice_of_notMem {owner : ℕ} {f : List Obj → List Obj} {roots : List Obj} (hne : owner ≠ 0)
    (h : owner ∉ ids roots) : updateSlice owner f roots = roots := by
  rw [updateSlice, if_neg hne, updateChildren_of_notMem h]

section Head

variable (id : ℕ) (head : NodeHead)

theorem updateHead_cons (n : Obj) (rest : List Obj) : updateHead id head (n :: rest)
    = ⟨n.id, if n.id = id then head else n.head, updateHead id head n.children⟩ :: updateHead id head rest := by
  obtain ⟨i, h, children⟩ := n
  rw [updateHead, Obj.updateHead]

theorem facts_updateHead (parent : ℕ) (nodes : List Obj) : facts parent (updateHead id head nodes)
    = (facts parent nodes).map fun f => if f.id = id then { f with head := head } else f := by
  refine objects_induction (motive := fun nodes => ∀ parent, facts parent (updateHead id head nodes)
    = (facts parent nodes).map fun f => if f.id = id then { f with head := head } else f) ?_ ?_ nodes parent
  · intro parent
    rw [updateHead, facts_nil, List.map_nil]
  · intro n rest ihc ihr parent
    rw [updateHead_cons, facts_cons, facts_cons, List.map_cons, List.map_append, ← ihc, ← ihr]
    by_cases heq : n.id = id
    · rw [if_pos heq, if_pos heq]
    · rw [if_neg heq, if_neg heq]

end Head

/-! ## The resolvers -/

theorem bestChild_spec {siblings : List Obj} {path : List Bytes} {child : Obj} {consumed : ℕ} {exact : Bool}
    (h : bestChild siblings path = some (child, consumed, exact)) : child ∈ siblings ∧ 0 < consumed := by
  have hfold : ∀ (siblings : List Obj) (best : Option (Obj × ℕ × Bool)),
      siblings.foldl (betterChild path) best = some (child, consumed, exact) →
      best = some (child, consumed, exact) ∨ (child ∈ siblings ∧ 0 < consumed) := by
    intro siblings
    induction siblings with
    | nil => exact fun best h => .inl h
    | cons n rest ih =>
      intro best h
      rcases ih (betterChild path best n) h with hbest | ⟨hmem, hpos⟩
      · -- the best so far is the one before, or this node
        have hcases : betterChild path best n = best ∨ ∃ exact', 0 < matchNodeKeysFull n.head.keys path
            ∧ betterChild path best n = some (n, matchNodeKeysFull n.head.keys path, exact') := by
          unfold betterChild
          by_cases hzero : matchNodeKeysFull n.head.keys path = 0
          · exact .inl (if_pos hzero)
          · rw [if_neg hzero]
            dsimp only
            split
            · exact .inr ⟨_, Nat.pos_of_ne_zero hzero, rfl⟩
            · split_ifs
              · exact .inr ⟨_, Nat.pos_of_ne_zero hzero, rfl⟩
              · exact .inl rfl
        rcases hcases with hsame | ⟨exact', hpos, hnew⟩
        · exact .inl (hsame ▸ hbest)
        · rw [hnew] at hbest
          obtain ⟨rfl, rfl, -⟩ := Prod.mk.inj (Option.some_inj.1 hbest) |>.imp_right Prod.mk.inj
          exact .inr ⟨List.mem_cons_self, hpos⟩
      · exact .inr ⟨List.mem_cons_of_mem _ hmem, hpos⟩
  rcases hfold siblings none h with hnone | hspec
  · exact absurd hnone (by simp)
  · exact hspec

theorem findStep_dec (c c' : Cursor) (h : findStep c = .inl c') : c'.path.length < c.path.length := by
  unfold findStep at h
  split_ifs at h with hpath
  split at h
  · exact absurd h (by simp)
  · rename_i child consumed exact hbest
    split_ifs at h with hend
    obtain rfl := Sum.inl.inj h
    have hpos := (bestChild_spec hbest).2
    dsimp only
    rw [List.length_drop]
    omega

theorem childrenStep_dec (c c' : Cursor) (h : childrenStep c = .inl c') : c'.path.length < c.path.length := by
  unfold childrenStep at h
  split_ifs at h with hpath
  split at h
  · exact absurd h (by simp)
  · rename_i child consumed exact hbest
    obtain rfl := Sum.inl.inj h
    have hpos := (bestChild_spec hbest).2
    have hlength := List.length_pos_of_ne_nil hpath
    dsimp only
    rw [List.length_drop]
    omega

theorem findStep_exit {c : Cursor} {found : Found} (h : findStep c = .inr (some found)) :
    found.node ∈ c.siblings ∧ found.owner = c.owner ∧ found.siblings = c.siblings := by
  unfold findStep at h
  split_ifs at h with hpath
  · exact absurd h (by simp)
  · split at h
    · exact absurd h (by simp)
    · rename_i child consumed exact hbest
      split_ifs at h with hend hexact
      · obtain rfl := Option.some_inj.1 (Sum.inr.inj h)
        exact ⟨(bestChild_spec hbest).1, rfl, rfl⟩
      · exact absurd h (by simp)

theorem findStep_round {c c' : Cursor} (h : findStep c = .inl c') :
    ∃ child ∈ c.siblings, c'.owner = child.id ∧ c'.siblings = child.children := by
  unfold findStep at h
  split_ifs at h with hpath
  split at h
  · exact absurd h (by simp)
  · rename_i child consumed exact hbest
    split_ifs at h with hend
    obtain rfl := Sum.inl.inj h
    exact ⟨child, (bestChild_spec hbest).1, rfl, rfl⟩

theorem childrenStep_exit {c found : Cursor} (h : childrenStep c = .inr (some found)) : found = c := by
  unfold childrenStep at h
  split_ifs at h with hpath
  · exact (Option.some_inj.1 (Sum.inr.inj h)).symm
  · split at h <;> exact absurd h (by simp)

theorem childrenStep_round {c c' : Cursor} (h : childrenStep c = .inl c') :
    ∃ child ∈ c.siblings, c'.owner = child.id ∧ c'.siblings = child.children := by
  unfold childrenStep at h
  split_ifs at h with hpath
  split at h
  · exact absurd h (by simp)
  · rename_i child consumed exact hbest
    obtain rfl := Sum.inl.inj h
    exact ⟨child, (bestChild_spec hbest).1, rfl, rfl⟩

/-- The node that is found is in the slice that is found, and the tree reaches the slice. -/
theorem findNodeWithParent_spec (t : ConfigTree) (path : List Bytes) : ∀ found, findNodeWithParent t path = some found →
    found.node ∈ found.siblings ∧ Slice t.children found.owner found.siblings := by
  suffices hrun : Slice t.children 0 t.children → ∀ found, findNodeWithParent t path = some found →
      found.node ∈ found.siblings ∧ Slice t.children found.owner found.siblings from hrun (.inl ⟨rfl, rfl⟩)
  refine Loop.run_induct findStep_dec (motive := fun c result => Slice t.children c.owner c.siblings →
    ∀ found, result = some found → found.node ∈ found.siblings ∧ Slice t.children found.owner found.siblings)
    ?_ ?_ ⟨0, t.children, path⟩
  · intro c b hstep hslice found hfound
    subst hfound
    obtain ⟨hmem, howner, hsiblings⟩ := findStep_exit hstep
    rw [howner, hsiblings]
    exact ⟨hmem, hslice⟩
  · intro c c' b hstep ih hslice
    obtain ⟨child, hmem, howner, hsiblings⟩ := findStep_round hstep
    refine ih ?_
    rw [howner, hsiblings]
    exact hslice.child hmem

theorem childrenAtPath_spec (t : ConfigTree) (path : List Bytes) : ∀ found, childrenAtPath t path = some found →
    Slice t.children found.owner found.siblings := by
  suffices hrun : Slice t.children 0 t.children → ∀ found, childrenAtPath t path = some found →
      Slice t.children found.owner found.siblings from hrun (.inl ⟨rfl, rfl⟩)
  refine Loop.run_induct childrenStep_dec (motive := fun c result => Slice t.children c.owner c.siblings →
    ∀ found, result = some found → Slice t.children found.owner found.siblings) ?_ ?_ ⟨0, t.children, path⟩
  · intro c b hstep hslice found hfound
    subst hfound
    obtain rfl := childrenStep_exit hstep
    exact hslice
  · intro c c' b hstep ih hslice
    obtain ⟨child, hmem, howner, hsiblings⟩ := childrenStep_round hstep
    refine ih ?_
    rw [howner, hsiblings]
    exact hslice.child hmem

/-! ## Detaching a node -/

theorem ids_perm_of_facts {as bs : List Obj} {p q : ℕ} (h : (facts p as).Perm (facts q bs)) : (ids as).Perm (ids bs) := by
  have hmap := h.map Fact.id
  rwa [map_id_facts, map_id_facts] at hmap

theorem eq_of_id_eq {nodes : List Obj} (hnodup : (ids nodes).Nodup) {a b : Obj} (ha : a ∈ nodes) (hb : b ∈ nodes)
    (hid : a.id = b.id) : a = b := by
  induction nodes with
  | nil => exact absurd ha List.not_mem_nil
  | cons n rest ih =>
    rw [ids_cons, List.nodup_cons, List.mem_append, not_or] at hnodup
    obtain ⟨⟨-, hout⟩, hrest⟩ := hnodup
    rcases List.mem_cons.1 ha with rfl | ha' <;> rcases List.mem_cons.1 hb with rfl | hb'
    · rfl
    · exact absurd (hid ▸ id_mem_ids hb') hout
    · exact absurd (hid ▸ id_mem_ids ha') hout
    · exact ih (List.nodup_append.1 hrest).2.1 ha' hb'

section Detach

variable {roots slice : List Obj} {owner : ℕ} {n : Obj} (hslice : Slice roots owner slice)
  (hnodup : (ids roots).Nodup) (hzero : 0 ∉ ids roots)
include hslice hnodup hzero

theorem ids_slice_nodup : (ids slice).Nodup := by
  obtain ⟨others, hperm, -⟩ := facts_updateSlice hslice hnodup hzero
  have hids := hperm.map Fact.id
  rw [map_id_facts, List.map_append, map_id_facts] at hids
  exact (List.nodup_append.1 (hids.nodup_iff.1 hnodup)).1

/-- The slice around a node of it. -/
theorem split_slice (hn : n ∈ slice) : ∃ front back, slice = front ++ n :: back
    ∧ slice.eraseP (fun m => m.id = n.id) = front ++ back := by
  obtain ⟨a, front, back, -, hid, hsplit, herase⟩ :=
    List.exists_of_eraseP (p := fun m : Obj => decide (m.id = n.id)) hn (by simp)
  refine ⟨front, back, ?_, herase⟩
  have ha : a ∈ slice := by
    rw [hsplit]
    exact List.mem_append_right _ List.mem_cons_self
  rw [hsplit, eq_of_id_eq (ids_slice_nodup hslice hnodup hzero) ha hn (by simpa using hid)]

theorem facts_detach (hn : n ∈ slice) : (facts 0 roots).Perm
    (facts owner [n] ++ facts 0 (updateSlice owner (·.eraseP fun m => m.id = n.id) roots)) := by
  obtain ⟨front, back, hsplit, herase⟩ := split_slice hslice hnodup hzero hn
  obtain ⟨others, hperm, hupdate⟩ := facts_updateSlice hslice hnodup hzero
  have hdetached := hupdate (·.eraseP fun m => m.id = n.id)
  rw [herase, facts_append] at hdetached
  refine hperm.trans (List.Perm.trans ?_ (hdetached.symm.append_left _))
  rw [hsplit, facts_append, ← List.singleton_append, facts_append, ← List.append_assoc (facts owner [n]),
    ← List.append_assoc (facts owner front), ← List.append_assoc (facts owner [n])]
  exact (List.perm_append_comm.append_right _).append_right _

theorem ids_detach (hn : n ∈ slice) : (ids roots).Perm
    (ids [n] ++ ids (updateSlice owner (·.eraseP fun m => m.id = n.id) roots)) := by
  have hids := (facts_detach hslice hnodup hzero hn).map Fact.id
  rwa [List.map_append, map_id_facts, map_id_facts, map_id_facts] at hids

end Detach

/-! ## Renaming -/

/-- A node is a child of `parent` with the fields `head`; every other node is where and
what it was; and no node is in two places. -/
structure Moved (before after : List Obj) (id parent : ℕ) (head : NodeHead) : Prop where
  distinct : (ids after).Nodup
  conserved : (facts 0 after).Perm ((facts 0 before).map fun f => if f.id = id then ⟨parent, id, head⟩ else f)

/-- A fact that is replaced keeps its node. -/
theorem map_id_moved (nodes : List Obj) (id parent : ℕ) (head : NodeHead) :
    ((facts 0 nodes).map fun f => if f.id = id then ⟨parent, id, head⟩ else f).map Fact.id = ids nodes := by
  rw [List.map_map, ids]
  refine List.map_congr_left fun f _ => ?_
  dsimp only [Function.comp]
  split_ifs with h
  · exact h.symm
  · rfl

section Rename

variable {roots slice : List Obj} {owner : ℕ} {n : Obj} (hslice : Slice roots owner slice)
  (hnodup : (ids roots).Nodup) (hzero : 0 ∉ ids roots) (hn : n ∈ slice)
include hslice hnodup hzero hn

/-- The facts with the one of a node of the slice replaced. -/
theorem map_facts_detach (fact : Fact) :
    ((facts 0 roots).map fun f => if f.id = n.id then fact else f).Perm
      (fact :: (facts n.id n.children ++ facts 0 (updateSlice owner (·.eraseP fun m => m.id = n.id) roots))) := by
  have hids := ids_detach hslice hnodup hzero hn
  have hnodup' := hids.nodup_iff.1 hnodup
  rw [ids_cons, ids_nil, List.append_nil, List.cons_append, List.nodup_cons, List.mem_append, not_or] at hnodup'
  have hkeep : ∀ fs : List Fact, n.id ∉ fs.map Fact.id → fs.map (fun f => if f.id = n.id then fact else f) = fs := by
    intro fs hout
    refine (List.map_congr_left fun f hf => if_neg fun heq => ?_).trans (List.map_id fs)
    exact hout (heq ▸ List.mem_map_of_mem hf)
  refine ((facts_detach hslice hnodup hzero hn).map _).trans ?_
  rw [facts_singleton, List.cons_append, List.map_cons, if_pos rfl, List.map_append, hkeep, hkeep]
  · rw [map_id_facts]
    exact hnodup'.1.2
  · rw [map_id_facts]
    exact hnodup'.1.1

/-- Moved to another slice the tree still reaches. -/
theorem moved_append {parent : ℕ} (head : NodeHead) (hparent : parent = 0 ∨ parent ∈ ids roots)
    (hout : parent ∉ ids [n]) :
    Moved roots (updateSlice parent (· ++ [⟨n.id, head, n.children⟩])
      (updateSlice owner (·.eraseP fun m => m.id = n.id) roots)) n.id parent head := by
  have hids := ids_detach hslice hnodup hzero hn
  have hreach : parent = 0 ∨ parent ∈ ids (updateSlice owner (·.eraseP fun m => m.id = n.id) roots) := by
    refine hparent.imp_right fun h => ?_
    exact (List.mem_append.1 (hids.mem_iff.1 h)).resolve_left hout
  have hnodup' := (List.nodup_append.1 (hids.nodup_iff.1 hnodup)).2.1
  have hzero' : 0 ∉ ids (updateSlice owner (·.eraseP fun m => m.id = n.id) roots) :=
    fun h => hzero (hids.mem_iff.2 (List.mem_append_right _ h))
  have hfacts := facts_appendSlice hreach hnodup' hzero' ⟨n.id, head, n.children⟩
  have hconserved := map_facts_detach hslice hnodup hzero hn ⟨parent, n.id, head⟩
  rw [facts_singleton] at hfacts
  have hperm := hfacts.trans (List.perm_append_comm.trans hconserved.symm)
  refine ⟨?_, hperm⟩
  have hsame := hperm.map Fact.id
  rw [map_id_facts, map_id_moved] at hsame
  exact hsame.nodup_iff.2 hnodup

/-- Moved into its own subtree, a node is gone. -/
theorem not_mem_of_inside {parent : ℕ} (f : List Obj → List Obj) (hin : parent ∈ ids [n]) :
    n.id ∉ ids (updateSlice parent f (updateSlice owner (·.eraseP fun m => m.id = n.id) roots)) := by
  have hids := ids_detach hslice hnodup hzero hn
  obtain ⟨-, -, hapart⟩ := List.nodup_append.1 (hids.nodup_iff.1 hnodup)
  have hne : parent ≠ 0 := by
    rintro rfl
    exact hzero (hids.mem_iff.2 (List.mem_append_left _ hin))
  have hgone : parent ∉ ids (updateSlice owner (·.eraseP fun m => m.id = n.id) roots) :=
    fun h => hapart parent hin parent h rfl
  rw [updateSlice_of_notMem hne hgone]
  exact fun h => hapart n.id (id_mem_ids List.mem_cons_self) n.id h rfl

/-- Renamed in place. -/
theorem moved_updateHead (head : NodeHead) : Moved roots (updateHead n.id head roots) n.id owner head := by
  have hfacts := facts_updateHead n.id head 0 roots
  have hparent : ∀ f ∈ facts 0 roots, f.id = n.id → f.parent = owner := by
    intro f hf hid
    have hids := ids_detach hslice hnodup hzero hn
    have hnodup' := hids.nodup_iff.1 hnodup
    rw [ids_cons, ids_nil, List.append_nil, List.cons_append, List.nodup_cons] at hnodup'
    have hmem := (facts_detach hslice hnodup hzero hn).mem_iff.1 hf
    rw [facts_singleton, List.cons_append, List.mem_cons] at hmem
    rcases hmem with rfl | hmem
    · rfl
    · have := List.mem_map_of_mem (f := Fact.id) hmem
      rw [List.map_append, map_id_facts, map_id_facts, hid] at this
      exact absurd this hnodup'.1
  refine ⟨?_, ?_⟩
  · have hsame : ids (updateHead n.id head roots) = ids roots := by
      rw [ids, hfacts, List.map_map, ids]
      refine List.map_congr_left fun f _ => ?_
      dsimp only [Function.comp]
      split_ifs <;> rfl
    rw [hsame]
    exact hnodup
  · rw [hfacts]
    refine List.Perm.of_eq (List.map_congr_left fun f hf => ?_)
    split_ifs with hid
    · rw [← hparent f hf hid, ← hid]
    · rfl

end Rename

/-! ## Copying -/

mutual

/-- A node without its identity. -/
def Obj.toNode : Obj → Node
  | ⟨_, head, children⟩ => ⟨head, toNodes children⟩

/-- A sibling list without its identities. -/
def toNodes : List Obj → List Node
  | [] => []
  | n :: rest => n.toNode :: toNodes rest

end

theorem toNodes_cons (n : Obj) (rest : List Obj) : toNodes (n :: rest) = ⟨n.head, toNodes n.children⟩ :: toNodes rest := by
  obtain ⟨id, head, children⟩ := n
  rw [toNodes, Obj.toNode]

theorem cloneNodes_cons (next : ℕ) (n : Obj) (rest : List Obj) : cloneNodes next (n :: rest)
    = (⟨next, n.head, (cloneNodes (next + 1) n.children).1⟩
        :: (cloneNodes (cloneNodes (next + 1) n.children).2 rest).1,
      (cloneNodes (cloneNodes (next + 1) n.children).2 rest).2) := by
  obtain ⟨id, head, children⟩ := n
  rw [cloneNodes, Obj.clone]

/-- A clone is made of new nodes, one for each of the nodes it copies, with their fields. -/
theorem cloneNodes_spec (nodes : List Obj) : ∀ next, next ≤ (cloneNodes next nodes).2
    ∧ (∀ i ∈ ids (cloneNodes next nodes).1, next ≤ i ∧ i < (cloneNodes next nodes).2)
    ∧ (ids (cloneNodes next nodes).1).Nodup ∧ toNodes (cloneNodes next nodes).1 = toNodes nodes := by
  refine objects_induction (motive := fun nodes => ∀ next, next ≤ (cloneNodes next nodes).2
    ∧ (∀ i ∈ ids (cloneNodes next nodes).1, next ≤ i ∧ i < (cloneNodes next nodes).2)
    ∧ (ids (cloneNodes next nodes).1).Nodup ∧ toNodes (cloneNodes next nodes).1 = toNodes nodes) ?_ ?_ nodes
  · intro next
    rw [cloneNodes]
    refine ⟨Nat.le_refl _, ?_, ?_, rfl⟩
    · rw [ids_nil]
      exact fun i hi => absurd hi List.not_mem_nil
    · rw [ids_nil]
      exact List.nodup_nil
  · intro n rest ihc ihr next
    obtain ⟨hle, hrange, hnodup, hsame⟩ := ihc (next + 1)
    obtain ⟨hle', hrange', hnodup', hsame'⟩ := ihr (cloneNodes (next + 1) n.children).2
    rw [cloneNodes_cons]
    refine ⟨by omega, ?_, ?_, ?_⟩
    · intro i hi
      rw [ids_cons, List.mem_cons, List.mem_append] at hi
      rcases hi with rfl | hi | hi
      · exact ⟨Nat.le_refl _, by dsimp only; omega⟩
      · have := hrange i hi
        exact ⟨by omega, by dsimp only; omega⟩
      · have := hrange' i hi
        exact ⟨by omega, this.2⟩
    · rw [ids_cons, List.nodup_cons, List.nodup_append]
      dsimp only
      refine ⟨fun hmem => ?_, hnodup, hnodup', ?_⟩
      · rcases List.mem_append.1 hmem with hmem | hmem
        · have := hrange next hmem
          omega
        · have := hrange' next hmem
          omega
      · rintro i hi j hj rfl
        have := hrange i hi
        have := hrange' i hj
        omega
    · rw [toNodes_cons, toNodes_cons, hsame, hsame']

/-- A copy of a node is a child of `parent`, made of new nodes, with the fields `head` and
the children of the node; every node that was there is where and what it was. -/
structure Copied (before after : List Obj) (node : Obj) (parent : ℕ) (head : NodeHead) (copy : Obj) : Prop where
  distinct : (ids after).Nodup
  conserved : (facts 0 after).Perm (facts 0 before ++ facts parent [copy])
  copied : copy.head = head ∧ toNodes copy.children = toNodes node.children

theorem copied_append (t : ConfigTree) {n : Obj} {parent : ℕ} (hparent : parent = 0 ∨ parent ∈ ids t.children)
    (head : NodeHead) : Copied t.children
      (updateSlice parent (· ++ [⟨(n.clone t.next).1.id, head, (n.clone t.next).1.children⟩]) t.children) n parent head
      ⟨(n.clone t.next).1.id, head, (n.clone t.next).1.children⟩ := by
  have hclone : n.clone t.next
      = (⟨t.next, n.head, (cloneNodes (t.next + 1) n.children).1⟩, (cloneNodes (t.next + 1) n.children).2) := by
    obtain ⟨id, head, children⟩ := n
    rw [Obj.clone]
  obtain ⟨-, hrange, hnodup, hsame⟩ := cloneNodes_spec n.children (t.next + 1)
  have hzero : 0 ∉ ids t.children := fun h => absurd (t.allocated 0 h).1 (Nat.lt_irrefl 0)
  rw [hclone]
  dsimp only
  have hfacts := facts_appendSlice hparent t.distinct hzero
    ⟨t.next, head, (cloneNodes (t.next + 1) n.children).1⟩
  refine ⟨?_, hfacts, rfl, hsame⟩
  have hids := hfacts.map Fact.id
  rw [List.map_append, map_id_facts, map_id_facts, map_id_facts, ids_cons, ids_nil, List.append_nil] at hids
  refine hids.nodup_iff.2 (List.nodup_append.2 ⟨t.distinct, List.nodup_cons.2 ⟨?_, hnodup⟩, ?_⟩)
  · intro hmem
    have := hrange _ hmem
    dsimp only at this
    omega
  · rintro i hi j hj rfl
    have hlt := (t.allocated i hi).2
    rcases List.mem_cons.1 hj with rfl | hj
    · exact absurd hlt (Nat.lt_irrefl _)
    · have := hrange i hj
      omega

/-! ## Inserting -/

theorem facts_perm {as bs : List Obj} (h : as.Perm bs) (parent : ℕ) : (facts parent as).Perm (facts parent bs) := by
  induction h with
  | nil => exact List.Perm.refl _
  | cons n _ ih =>
    rw [facts_cons, facts_cons]
    exact (ih.append_left _).cons _
  | swap a b rest =>
    have hsplit : ∀ x y : Obj, facts parent (x :: y :: rest)
        = (facts parent [x] ++ facts parent [y]) ++ facts parent rest := by
      intro x y
      rw [← facts_append, ← facts_append]
      rfl
    rw [hsplit, hsplit]
    exact List.perm_append_comm.append_right _
  | trans _ _ ih ih' => exact ih.trans ih'

theorem Slice.update {roots slice : List Obj} {owner : ℕ} (h : Slice roots owner slice) (hnodup : (ids roots).Nodup)
    (hzero : 0 ∉ ids roots) (f : List Obj → List Obj) : Slice (updateSlice owner f roots) owner (f slice) := by
  rcases h with ⟨rfl, rfl⟩ | h
  · exact .inl ⟨rfl, by rw [updateSlice, if_pos rfl]⟩
  · have hne : owner ≠ 0 := fun heq => hzero (heq ▸ h.mem_ids)
    rw [updateSlice, if_neg hne]
    refine .inr ?_
    clear hzero
    revert h hnodup
    refine objects_induction (motive := fun roots => (ids roots).Nodup → Owns owner slice roots →
      Owns owner (f slice) (updateChildren owner f roots)) ?_ ?_ roots
    · rintro - (⟨hn, -, -⟩ | ⟨hn, -⟩) <;> exact absurd hn List.not_mem_nil
    · intro n rest ihc ihr hnodup h
      rw [ids_cons, List.nodup_cons, List.nodup_append, List.mem_append, not_or] at hnodup
      obtain ⟨hn, hchildren, hrest, -⟩ := hnodup
      rw [updateChildren_cons, owns_cons]
      rcases owns_cons.1 h with ⟨rfl, rfl⟩ | h | h
      · exact .inl ⟨rfl, if_pos rfl⟩
      · have hne' : ¬ n.id = owner := fun heq => hn.1 (heq ▸ h.mem_ids)
        rw [if_neg hne']
        exact .inr (.inl (ihc hchildren h))
      · exact .inr (.inr (ihr hrest h))

theorem insertIdx_findIdx {p : Obj → Bool} {rest : List Obj} : ∀ {i : ℕ}, rest.findIdx? p = some i → ∀ x : Obj,
    ∃ front r back, rest = front ++ r :: back ∧ p r = true ∧ rest.insertIdx i x = front ++ x :: r :: back
      ∧ rest.insertIdx (i + 1) x = front ++ r :: x :: back := by
  induction rest with
  | nil =>
    intro i h
    simp at h
  | cons a rest ih =>
    intro i h x
    rw [List.findIdx?_cons] at h
    split_ifs at h with ha
    · obtain rfl := Option.some_inj.1 h
      exact ⟨[], a, rest, rfl, ha, rfl, rfl⟩
    · obtain ⟨j, hj, rfl⟩ := Option.map_eq_some_iff.1 h
      obtain ⟨front, r, back, rfl, hr, hbefore, hafter⟩ := ih hj x
      refine ⟨a :: front, r, back, rfl, hr, ?_, ?_⟩
      · rw [List.insertIdx_succ_cons, hbefore, List.cons_append]
      · rw [List.insertIdx_succ_cons, hafter, List.cons_append]

/-- Two siblings stand next to each other; every node is whose child it was and what it was. -/
structure Placed (before after : List Obj) (owner : ℕ) (first second : Obj) : Prop where
  distinct : (ids after).Nodup
  conserved : (facts 0 after).Perm (facts 0 before)
  placed : ∃ front back, Slice after owner (front ++ first :: second :: back)

theorem Owns.unique {owner : ℕ} {slice slice' nodes : List Obj} (h : Owns owner slice nodes)
    (h' : Owns owner slice' nodes) (hnodup : (ids nodes).Nodup) : slice = slice' := by
  revert h h' hnodup
  refine objects_induction (motive := fun nodes => Owns owner slice nodes → Owns owner slice' nodes →
    (ids nodes).Nodup → slice = slice') ?_ ?_ nodes
  · rintro (⟨hn, -, -⟩ | ⟨hn, -⟩) <;> exact absurd hn List.not_mem_nil
  · intro n rest ihc ihr h h' hnodup
    rw [ids_cons, List.nodup_cons, List.nodup_append, List.mem_append, not_or] at hnodup
    obtain ⟨⟨hchild, hlater⟩, hchildren, hrest, hapart⟩ := hnodup
    -- a node is in one of the three places
    rcases owns_cons.1 h with ⟨hid, rfl⟩ | h | h <;> rcases owns_cons.1 h' with ⟨hid', rfl⟩ | h' | h'
    · rfl
    · exact absurd (hid ▸ h'.mem_ids) hchild
    · exact absurd (hid ▸ h'.mem_ids) hlater
    · exact absurd (hid' ▸ h.mem_ids) hchild
    · exact ihc h h' hchildren
    · exact absurd rfl (hapart owner h.mem_ids owner h'.mem_ids)
    · exact absurd (hid' ▸ h.mem_ids) hlater
    · exact absurd rfl (hapart owner h'.mem_ids owner h.mem_ids)
    · exact ihr h h' hrest

/-- The owner determines the slice. -/
theorem Slice.unique {roots : List Obj} {owner : ℕ} {slice slice' : List Obj} (h : Slice roots owner slice)
    (h' : Slice roots owner slice') (hnodup : (ids roots).Nodup) (hzero : 0 ∉ ids roots) : slice = slice' := by
  rcases h with ⟨rfl, rfl⟩ | h <;> rcases h' with ⟨hid, rfl⟩ | h'
  · rfl
  · exact absurd h'.mem_ids hzero
  · exact absurd (hid ▸ h.mem_ids) hzero
  · exact h.unique h' hnodup

theorem ConfigTree.zero_notMem (t : ConfigTree) : 0 ∉ ids t.children :=
  fun h => absurd (t.allocated 0 h).1 (Nat.lt_irrefl 0)

/-- A slice with one of its nodes moved next to another. -/
theorem placed_update (t : ConfigTree) {owner : ℕ} {slice slice' : List Obj} (hslice : Slice t.children owner slice)
    (hperm : slice'.Perm slice) {first second : Obj} {front back : List Obj}
    (hplaced : slice' = front ++ first :: second :: back) :
    Placed t.children (updateSlice owner (fun _ => slice') t.children) owner first second := by
  obtain ⟨others, hold, hupdate⟩ := facts_updateSlice hslice t.distinct t.zero_notMem
  have hfacts := (hupdate fun _ => slice').trans (((facts_perm hperm owner).append_right _).trans hold.symm)
  refine ⟨(ids_perm_of_facts hfacts).nodup_iff.2 t.distinct, hfacts, front, back, ?_⟩
  rw [← hplaced]
  exact hslice.update t.distinct t.zero_notMem fun _ => slice'

/-! ## The three edits -/

/-- What `RenamePath` is asked to do is done: the source is a child of the destination's
parent, under the destination's last keys. -/
def RenameConserves (t : ConfigTree) (src dst : List Bytes) (after : List Obj) : Prop :=
  ∃ source dstParent, findNodeWithParent t src = some source
    ∧ childrenAtPath t (bareDestinationParent src dst source.node.head.keys.length) = some dstParent
    ∧ Moved t.children after source.node.id dstParent.owner
      (rekeyed source.node.head (newKeys dst source.node.head.keys.length)
        (source.node.head.keys ≠ newKeys dst source.node.head.keys.length))

/-- The parent of the destination is the source or below it. -/
def IntoItself (t : ConfigTree) (src dst : List Bytes) : Prop :=
  ∃ source dstParent, findNodeWithParent t src = some source
    ∧ childrenAtPath t (bareDestinationParent src dst source.node.head.keys.length) = some dstParent
    ∧ dstParent.owner ∈ ids [source.node]

def CopyConserves (t : ConfigTree) (src dst : List Bytes) (after : List Obj) : Prop :=
  ∃ source dstParent copy, findNodeWithParent t src = some source
    ∧ childrenAtPath t (bareDestinationParent src dst source.node.head.keys.length) = some dstParent
    ∧ Copied t.children after source.node dstParent.owner
      (rekeyed source.node.head (newKeys dst source.node.head.keys.length) true) copy

/-- The element stands before the reference, or behind it, or is the reference. -/
def InsertConserves (t : ConfigTree) (elementPath refPath : List Bytes) (behind : Bool) (after : List Obj) : Prop :=
  ∃ element reference, findNodeWithParent t elementPath = some element ∧ findNodeWithParent t refPath = some reference
    ∧ ((element.node = reference.node ∧ after = t.children)
      ∨ if behind then Placed t.children after element.owner reference.node element.node
        else Placed t.children after element.owner element.node reference.node)

theorem nodup_children {n : Obj} {nodes : List Obj} (h : n ∈ nodes) (hnodup : (ids nodes).Nodup) :
    n.id ∉ ids n.children ∧ (ids n.children).Nodup := by
  obtain ⟨front, back, rfl⟩ := List.append_of_mem h
  rw [ids_append, ids_cons] at hnodup
  have hn := List.nodup_cons.1 (List.nodup_append.1 hnodup).2.1
  exact ⟨fun hmem => hn.1 (List.mem_append_left _ hmem), (List.nodup_append.1 hn.2).1⟩

/-- The owner of a slice is not in it or below. -/
theorem Slice.owner_notMem {roots slice : List Obj} {owner : ℕ} (h : Slice roots owner slice)
    (hnodup : (ids roots).Nodup) (hzero : 0 ∉ ids roots) : owner ∉ ids slice := by
  rcases h with ⟨rfl, rfl⟩ | h
  · exact hzero
  · clear hzero
    induction h with
    | own hn hid hslice =>
      rw [← hid, ← hslice]
      exact (nodup_children hn hnodup).1
    | deeper hn _ ih => exact ih (nodup_children hn hnodup).2

theorem ids_singleton_subset {n : Obj} {slice : List Obj} (h : n ∈ slice) {i : ℕ} (hi : i ∈ ids [n]) : i ∈ ids slice := by
  rw [ids_cons, ids_nil, List.append_nil, List.mem_cons] at hi
  rcases hi with rfl | hi
  · exact id_mem_ids h
  · exact ids_children_subset h hi

theorem Slice.owner_reached {roots slice : List Obj} {owner : ℕ} (h : Slice roots owner slice) :
    owner = 0 ∨ owner ∈ ids roots := h.imp And.left Owns.mem_ids

section Edits

variable {t : ConfigTree}

theorem refuse_ne_none (error : EditError) : (t.refuse error).2 ≠ none := by
  simp [ConfigTree.refuse]

/-- What `RenamePath` does when it returns no error. -/
theorem renamePath_ok {src dst : List Bytes} (h : (t.renamePath src dst).2 = none) :
    ∃ source dstParent, findNodeWithParent t src = some source
      ∧ childrenAtPath t (bareDestinationParent src dst source.node.head.keys.length) = some dstParent
      ∧ ∃ head, head = rekeyed source.node.head (newKeys dst source.node.head.keys.length)
          (source.node.head.keys ≠ newKeys dst source.node.head.keys.length)
        ∧ (t.renamePath src dst).1
          = if dstParent.owner = source.owner then updateHead source.node.id head t.children
            else updateSlice dstParent.owner (· ++ [{ source.node with head := head }])
              (updateSlice source.owner (·.eraseP fun n => n.id = source.node.id) t.children) := by
  unfold ConfigTree.renamePath at h ⊢
  by_cases hempty : src.length = 0 ∨ dst.length = 0
  · rw [if_pos hempty] at h
    exact absurd h (refuse_ne_none _)
  rw [if_neg hempty] at h ⊢
  cases hsource : findNodeWithParent t src with
  | none =>
    rw [hsource] at h
    exact absurd h (refuse_ne_none _)
  | some source =>
    rw [hsource] at h
    dsimp only at h ⊢
    by_cases hshort : dst.length < source.node.head.keys.length
    · rw [if_pos hshort] at h
      exact absurd h (refuse_ne_none _)
    rw [if_neg hshort] at h ⊢
    cases hparent : childrenAtPath t (bareDestinationParent src dst source.node.head.keys.length) with
    | none =>
      rw [hparent] at h
      exact absurd h (refuse_ne_none _)
    | some dstParent =>
      rw [hparent] at h
      dsimp only at h ⊢
      refine ⟨source, dstParent, rfl, hparent, _, rfl, ?_⟩
      by_cases hcollides : (dstParent.siblings.any fun n => n.id ≠ source.node.id
          && n.head.keys = newKeys dst source.node.head.keys.length) = true
      · rw [if_pos hcollides] at h
        exact absurd h (refuse_ne_none _)
      · rw [if_neg hcollides]
        split_ifs
        · rfl
        · rfl

theorem renamePath_conserves_iff {src dst : List Bytes} (h : (t.renamePath src dst).2 = none) :
    RenameConserves t src dst (t.renamePath src dst).1 ↔ ¬ IntoItself t src dst := by
  obtain ⟨source, dstParent, hsource, hparent, head, hhead, hafter⟩ := renamePath_ok h
  obtain ⟨hn, hslice⟩ := findNodeWithParent_spec t src source hsource
  have hdest := childrenAtPath_spec t _ dstParent hparent
  have hinto : IntoItself t src dst ↔ dstParent.owner ∈ ids [source.node] := by
    constructor
    · rintro ⟨source', dstParent', hsource', hparent', hin⟩
      obtain rfl := Option.some_inj.1 (hsource.symm.trans hsource')
      obtain rfl := Option.some_inj.1 (hparent.symm.trans hparent')
      exact hin
    · exact fun hin => ⟨source, dstParent, hsource, hparent, hin⟩
  rw [hinto, hafter]
  by_cases hsame : dstParent.owner = source.owner
  · -- in place
    rw [if_pos hsame]
    have hout : dstParent.owner ∉ ids [source.node] := by
      rw [hsame]
      exact fun hin => hslice.owner_notMem t.distinct t.zero_notMem (ids_singleton_subset hn hin)
    refine iff_of_true ⟨source, dstParent, hsource, hparent, ?_⟩ hout
    rw [hsame, ← hhead]
    exact moved_updateHead hslice t.distinct t.zero_notMem hn head
  · rw [if_neg hsame]
    constructor
    · rintro ⟨source', dstParent', hsource', hparent', hmoved⟩ hin
      obtain rfl := Option.some_inj.1 (hsource.symm.trans hsource')
      -- the moved node would have to be in a tree that does not reach it
      have hids := hmoved.conserved.map Fact.id
      rw [map_id_facts] at hids
      refine not_mem_of_inside hslice t.distinct t.zero_notMem hn _ hin (hids.mem_iff.2 ?_)
      rw [map_id_moved]
      exact (ids_detach hslice t.distinct t.zero_notMem hn).mem_iff.2
        (List.mem_append_left _ (id_mem_ids List.mem_cons_self))
    · intro hout
      refine ⟨source, dstParent, hsource, hparent, ?_⟩
      rw [← hhead]
      exact moved_append hslice t.distinct t.zero_notMem hn head hdest.owner_reached hout

theorem copyPath_conserves {src dst : List Bytes} (h : (t.copyPath src dst).2 = none) :
    CopyConserves t src dst (t.copyPath src dst).1 := by
  unfold ConfigTree.copyPath at h ⊢
  by_cases hempty : src.length = 0 ∨ dst.length = 0
  · rw [if_pos hempty] at h
    exact absurd h (refuse_ne_none _)
  rw [if_neg hempty] at h ⊢
  cases hsource : findNodeWithParent t src with
  | none =>
    rw [hsource] at h
    exact absurd h (refuse_ne_none _)
  | some source =>
    rw [hsource] at h
    dsimp only at h ⊢
    by_cases hshort : dst.length < source.node.head.keys.length
    · rw [if_pos hshort] at h
      exact absurd h (refuse_ne_none _)
    rw [if_neg hshort] at h ⊢
    cases hparent : childrenAtPath t (bareDestinationParent src dst source.node.head.keys.length) with
    | none =>
      rw [hparent] at h
      exact absurd h (refuse_ne_none _)
    | some dstParent =>
      rw [hparent] at h
      dsimp only at h ⊢
      by_cases hcollides : (dstParent.siblings.any fun n =>
          n.head.keys = newKeys dst source.node.head.keys.length) = true
      · rw [if_pos hcollides] at h
        exact absurd h (refuse_ne_none _)
      · rw [if_neg hcollides]
        have hdest := childrenAtPath_spec t _ dstParent hparent
        have hhead : (source.node.clone t.next).1.head = source.node.head := by
          obtain ⟨⟨id, head, children⟩, owner, siblings⟩ := source
          rw [Obj.clone]
        rw [hhead]
        exact ⟨source, dstParent, _, hsource, hparent, copied_append t hdest.owner_reached _⟩

theorem insertRelative_conserves {elementPath refPath : List Bytes} {behind : Bool}
    (h : (t.insertRelative elementPath refPath behind).2 = none) :
    InsertConserves t elementPath refPath behind (t.insertRelative elementPath refPath behind).1 := by
  unfold ConfigTree.insertRelative at h ⊢
  by_cases hempty : elementPath.length = 0 ∨ refPath.length = 0
  · rw [if_pos hempty] at h
    exact absurd h (refuse_ne_none _)
  rw [if_neg hempty] at h ⊢
  cases helement : findNodeWithParent t elementPath with
  | none =>
    rw [helement] at h
    exact absurd h (refuse_ne_none _)
  | some element =>
    cases hreference : findNodeWithParent t refPath with
    | none =>
      rw [helement, hreference] at h
      exact absurd h (refuse_ne_none _)
    | some reference =>
      rw [helement, hreference] at h
      obtain ⟨hn, hslice⟩ := findNodeWithParent_spec t _ element helement
      obtain ⟨hr, hslice'⟩ := findNodeWithParent_spec t _ reference hreference
      dsimp only at h ⊢
      by_cases howner : element.owner ≠ reference.owner
      · rw [if_pos howner] at h
        exact absurd h (refuse_ne_none _)
      rw [if_neg howner] at h ⊢
      rw [ne_eq, not_not] at howner
      rw [← howner] at hslice'
      have hsame := hslice'.unique hslice t.distinct t.zero_notMem
      rw [hsame] at hr
      have hdistinct := ids_slice_nodup hslice t.distinct t.zero_notMem
      refine ⟨element, reference, helement, hreference, ?_⟩
      by_cases hid : element.node.id = reference.node.id
      · rw [if_pos hid]
        exact .inl ⟨eq_of_id_eq hdistinct hn hr hid, rfl⟩
      rw [if_neg hid] at h ⊢
      refine .inr ?_
      obtain ⟨front, back, hsplit, herase⟩ := split_slice hslice t.distinct t.zero_notMem hn
      rw [List.eraseP_eq_eraseIdx] at herase
      cases helem : element.siblings.findIdx? fun n => n.id = element.node.id with
      | none =>
        rw [helem] at h
        exact absurd h (refuse_ne_none _)
      | some elemIdx =>
        rw [helem] at h herase
        dsimp only at h herase ⊢
        rw [herase] at h ⊢
        cases hfound : (front ++ back).findIdx? fun n => n.id = reference.node.id with
        | none =>
          rw [hfound] at h
          exact absurd h (by simp)
        | some refIdx =>
          dsimp only
          obtain ⟨front', r, back', hrest, hrid, hbefore, hafter⟩ := insertIdx_findIdx hfound element.node
          have hperm : (element.node :: (front' ++ r :: back')).Perm element.siblings := by
            rw [hsplit, ← hrest]
            exact List.perm_middle.symm
          have hmem : r ∈ element.siblings :=
            hperm.mem_iff.1 (List.mem_cons_of_mem _ (List.mem_append_right _ List.mem_cons_self))
          obtain rfl : r = reference.node := eq_of_id_eq hdistinct hmem hr (by simpa using hrid)
          cases behind with
          | true =>
            simp only [if_true]
            refine placed_update t hslice ?_ hafter
            rw [hafter]
            refine List.Perm.trans ?_ hperm
            rw [← List.singleton_append, ← List.append_assoc]
            exact List.perm_middle.trans (by rw [List.append_assoc, List.singleton_append])
          | false =>
            simp only [Bool.false_eq_true, if_false]
            refine placed_update t hslice ?_ hbefore
            rw [hbefore]
            exact List.perm_middle.trans hperm

/-- **Moving nodes conserves the tree**, but for a rename into the source's own subtree. -/
theorem edits_conserve_iff (t : ConfigTree) :
    (∀ src dst, (t.renamePath src dst).2 = none →
      (RenameConserves t src dst (t.renamePath src dst).1 ↔ ¬ IntoItself t src dst))
    ∧ (∀ src dst, (t.copyPath src dst).2 = none → CopyConserves t src dst (t.copyPath src dst).1)
    ∧ ∀ elementPath refPath behind, (t.insertRelative elementPath refPath behind).2 = none →
      InsertConserves t elementPath refPath behind (t.insertRelative elementPath refPath behind).1 :=
  ⟨fun _ _ h => renamePath_conserves_iff h, fun _ _ h => copyPath_conserves h,
    fun _ _ _ h => insertRelative_conserves h⟩

/-- `a { b { c; } }`. -/
def nested : ConfigTree where
  children := [⟨1, { keys := [bytes "a"] }, [⟨2, { keys := [bytes "b"] }, [⟨3, { keys := [bytes "c"], isLeaf := true }, []⟩]⟩]⟩]
  next := 4
  distinct := by decide
  allocated := by decide

/-- Renamed to `a b z`, the node `a` leaves an empty tree. -/
theorem renamePath_loses : (nested.renamePath [bytes "a"] [bytes "a", bytes "b", bytes "z"]).2 = none
    ∧ (nested.renamePath [bytes "a"] [bytes "a", bytes "b", bytes "z"]).1 = []
    ∧ ¬ RenameConserves nested [bytes "a"] [bytes "a", bytes "b", bytes "z"]
      (nested.renamePath [bytes "a"] [bytes "a", bytes "b", bytes "z"]).1 := by
  have hempty : (nested.renamePath [bytes "a"] [bytes "a", bytes "b", bytes "z"]).1 = [] := by
    rw [← List.isEmpty_iff]
    decide +kernel
  refine ⟨by decide +kernel, hempty, ?_⟩
  rintro ⟨source, dstParent, -, -, hmoved⟩
  have hlength := hmoved.conserved.length_eq
  rw [hempty, List.length_map, facts_nil] at hlength
  exact absurd hlength (by decide)

end Edits

end Xpf.ConfigObjects
