/-
`ConfigCanonical.lean` -- the tree `Format` writes.

`formatNodes` reorders siblings while it writes them. Here the two are taken apart:
`canonicalForest` is the tree with every sibling list in `canonicalOrder`, `render`
writes a tree as it stands, and `formatNodes_eq` says that formatting is rendering the
canonical tree. What the peer reads back is then a fact about `render` alone.

Note that `canonicalOrder` moves one sibling only, so it is not idempotent: of two
`from` behind a `then` it moves the last one.
-/
import Xpf.ConfigFormat

set_option autoImplicit false

namespace Xpf.ConfigCanonical

open Xpf.GoStrings Xpf.ConfigAst Xpf.ConfigFormat

/-! ## Canonical order -/

section

variable {α β : Type} {keysOf : α → List Bytes} {keysOf' : β → List Bytes} {f : α → β}

theorem lastIdx_map (h : ∀ a, keysOf' (f a) = keysOf a) (names : List Bytes) (nodes : List α) :
    lastIdx keysOf' names (nodes.map f) = lastIdx keysOf names nodes := by
  rw [lastIdx, lastIdx, List.zipIdx_map, List.filter_map, List.getLast?_map, Option.map_map]
  have hfilter : ((fun t : β × ℕ => (keysOf' t.1).head?.any names.contains) ∘ Prod.map f id)
      = fun t : α × ℕ => (keysOf t.1).head?.any names.contains := by
    funext t
    exact congrArg (fun ks : List Bytes => ks.head?.any names.contains) (h t.1)
  rw [hfilter]
  rfl

/-- `canonicalOrder` looks at the first keys only. -/
theorem canonicalOrder_map (h : ∀ a, keysOf' (f a) = keysOf a) (nodes : List α) :
    canonicalOrder keysOf' (nodes.map f) = (canonicalOrder keysOf nodes).map f := by
  rw [canonicalOrder, canonicalOrder, lastIdx_map h, lastIdx_map h]
  split
  · split_ifs
    · rfl
    · rw [List.zipIdx_map, List.flatMap_map, List.map_flatMap]
      refine congrArg (fun g => nodes.zipIdx.flatMap g) (funext fun t => ?_)
      dsimp only [Prod.map]
      rw [id_eq]
      split_ifs
      · rfl
      · rw [List.getElem?_map, List.map_append]
        generalize nodes[(_ : ℕ)]? = moved
        cases moved <;> rfl
      · rfl
  · rfl

theorem lastIdx_key {names : List Bytes} {nodes : List α} {i : ℕ}
    (h : lastIdx keysOf names nodes = some i) :
    ∃ a, nodes[i]? = some a ∧ (keysOf a).head?.any names.contains := by
  rw [lastIdx, Option.map_eq_some_iff] at h
  obtain ⟨⟨a, j⟩, hlast, rfl⟩ := h
  obtain ⟨hmem, hkey⟩ := List.mem_filter.mp (List.mem_of_getLast? hlast)
  exact ⟨a, List.mem_zipIdx_iff_getElem?.mp hmem, hkey⟩

/-- A stretch of a list none of whose indices is special. -/
theorem flatMap_zipIdx_self {g : α × ℕ → List α} (l : List α) (k : ℕ)
    (h : ∀ a i, k ≤ i → i < k + l.length → g (a, i) = [a]) : (l.zipIdx k).flatMap g = l := by
  induction l generalizing k with
  | nil => rfl
  | cons a l ih =>
    rw [List.zipIdx_cons, List.flatMap_cons, h a k (Nat.le_refl k) (by simp), ih (k + 1)]
    · rfl
    · intro b i hle hlt
      rw [List.length_cons] at h
      exact h b i (by omega) (by omega)

theorem exists_split {nodes : List α} {i : ℕ} {a : α} (h : nodes[i]? = some a) :
    ∃ front back, nodes = front ++ a :: back ∧ front.length = i := by
  obtain ⟨hlt, rfl⟩ := List.getElem?_eq_some_iff.mp h
  refine ⟨nodes.take i, nodes.drop (i + 1), ?_, List.length_take_of_le (by omega)⟩
  rw [← List.drop_eq_getElem_cons hlt, List.take_append_drop]

theorem flatMap_zipIdx_move (front mid back : List α) (b a : α) :
    ((front ++ b :: (mid ++ a :: back)).zipIdx.flatMap fun (n, i) =>
        if i = front.length + mid.length + 1 then []
        else if i = front.length then (some a).toList ++ [n]
        else [n])
      = front ++ a :: b :: (mid ++ back) := by
  rw [List.zipIdx_append, List.zipIdx_cons, List.zipIdx_append, List.zipIdx_cons,
    List.flatMap_append, List.flatMap_cons, List.flatMap_append, List.flatMap_cons,
    flatMap_zipIdx_self front, flatMap_zipIdx_self mid, flatMap_zipIdx_self back]
  · dsimp only
    rw [if_neg (by omega), if_pos (by omega), if_pos (by omega)]
    simp
  all_goals
    intro c i hlo hhi
    dsimp only
    rw [if_neg (by omega), if_neg (by omega)]

/-- What `canonicalOrder` does to a list: nothing, or it moves one node forward. -/
theorem canonicalOrder_eq (nodes : List α) :
    canonicalOrder keysOf nodes = nodes
      ∨ ∃ front b mid a back, nodes = front ++ b :: mid ++ a :: back
        ∧ canonicalOrder keysOf nodes = front ++ a :: b :: mid ++ back := by
  rw [canonicalOrder]
  split
  · rename_i m t hm ht
    split_ifs with hlt
    · exact .inl rfl
    · obtain ⟨a, hma, hakey⟩ := lastIdx_key hm
      obtain ⟨b, htb, hbkey⟩ := lastIdx_key ht
      -- no first key is both kinds, so the two indices differ
      have hne : t ≠ m := by
        rintro rfl
        obtain rfl : a = b := Option.some.inj (hma.symm.trans htb)
        cases hkeys : (keysOf a).head? with
        | none => rw [hkeys] at hbkey; cases hbkey
        | some k =>
          rw [hkeys] at hakey hbkey
          simp only [Option.any_some, List.contains_iff_mem, List.mem_cons,
            List.not_mem_nil, or_false] at hakey hbkey
          rw [hbkey] at hakey
          revert hakey
          decide
      obtain ⟨front, rest, rfl, hfront⟩ := exists_split htb
      have hrest : rest[m - (t + 1)]? = some a := by
        rw [← hma, List.getElem?_append_right (by omega), hfront,
          show m - t = m - (t + 1) + 1 by omega, List.getElem?_cons_succ]
      obtain ⟨mid, back, rfl, hmid⟩ := exists_split hrest
      refine .inr ⟨front, b, mid, a, back, by rw [List.append_assoc, List.cons_append], ?_⟩
      have hm : m = front.length + mid.length + 1 := by omega
      rw [hma, hm, ← hfront, List.append_assoc, List.cons_append, List.cons_append]
      exact flatMap_zipIdx_move front mid back b a
  · exact .inl rfl

theorem canonicalOrder_perm (nodes : List α) : (canonicalOrder keysOf nodes).Perm nodes := by
  rcases @canonicalOrder_eq _ keysOf nodes with h | ⟨front, b, mid, a, back, hnodes, h⟩
  · rw [h]
  · rw [h, hnodes, List.append_assoc, List.append_assoc]
    refine List.Perm.append_left front ?_
    exact (@List.perm_middle _ a (b :: mid) back).symm

/-- It invents no sibling. -/
theorem canonicalOrder_mem {nodes : List α} {a : α} (h : a ∈ canonicalOrder keysOf nodes) :
    a ∈ nodes := (canonicalOrder_perm nodes).mem_iff.mp h

end

mutual

/-- A node with the siblings below it in canonical order. -/
def Node.canonical : Node → Node
  | ⟨head, children⟩ => ⟨head, canonicalOrder (fun n => n.keys) (canonicalEach children)⟩

/-- The nodes of a sibling list, each in canonical order. -/
def canonicalEach : List Node → List Node
  | [] => []
  | n :: rest => Node.canonical n :: canonicalEach rest

end

/-- A forest with every sibling list in canonical order. -/
def canonicalForest (nodes : List Node) : List Node :=
  canonicalOrder (fun n => n.keys) (canonicalEach nodes)

theorem canonical_children (n : Node) :
    (Node.canonical n).children = canonicalForest n.children := by
  obtain ⟨head, children⟩ := n
  rfl

theorem canonicalOrder_forall {P : Node → Prop} {nodes : List Node} (h : NodesForall P nodes) :
    NodesForall P (canonicalOrder (fun n => n.keys) nodes) :=
  nodesForall_iff.mpr fun n hn => nodesForall_iff.mp h n (canonicalOrder_mem hn)

/-- A property of single nodes carries over to the reordered tree, if it does where the
children are reordered. -/
theorem canonicalForest_forall {P Q : Node → Prop} (hP : ∀ n, P n → Q (Node.canonical n))
    (nodes : List Node) (h : NodesForall P nodes) : NodesForall Q (canonicalForest nodes) := by
  refine canonicalOrder_forall ?_
  refine forest_induction (motive := fun nodes => NodesForall P nodes →
    NodesForall Q (canonicalEach nodes)) ?_ ?_ nodes h
  · exact fun _ => trivial
  · intro n rest ihc ihr h
    rw [nodesForall_cons] at h
    rw [canonicalEach, nodesForall_cons, canonical_children]
    exact ⟨⟨hP n h.1.1, canonicalOrder_forall (ihc h.1.2)⟩, ihr h.2⟩

/-! ## Rendering without reordering -/

/-- The text of a statement with the given body. -/
def statementText (indent : ℕ) (n : NodeHead) (body : Bytes) : Bytes :=
  annotationLine indent n ++ indentation indent ++ inactivePrefix n ++ formatNodeKeyPath n
    ++ if n.isLeaf then bytes ";\n"
      else bytes " \x7b\n" ++ body ++ indentation indent ++ bytes "\x7d\n"

mutual

/-- A node as it stands. -/
def Node.render (indent : ℕ) : Node → Bytes
  | ⟨n, children⟩ => statementText indent n (render (indent + 1) children)

/-- A sibling list as it stands. -/
def render (indent : ℕ) : List Node → Bytes
  | [] => []
  | n :: rest => Node.render indent n ++ render indent rest

end

theorem render_eq_flatMap (indent : ℕ) (nodes : List Node) :
    render indent nodes = nodes.flatMap (Node.render indent) := by
  induction nodes with
  | nil => rfl
  | cons n rest ih => rw [render, ih, List.flatMap_cons]

theorem render_cons (indent : ℕ) (n : Node) (rest : List Node) :
    render indent (n :: rest)
      = statementText indent n.toNodeHead (render (indent + 1) n.children) ++ render indent rest := by
  obtain ⟨head, children⟩ := n
  rw [render, Node.render]

/-- The texts of the siblings, put in order, are the rendered siblings in order. -/
theorem inOrder_eq {texts : List (NodeHead × Bytes)} {indent : ℕ} {nodes : List Node}
    (h : texts = nodes.map fun n => (n.toNodeHead, Node.render indent n)) :
    inOrder texts = render indent (canonicalOrder (fun n => n.keys) nodes) := by
  have hmap : canonicalOrder (fun t : NodeHead × Bytes => t.1.keys)
        (nodes.map fun n => (n.toNodeHead, Node.render indent n))
      = (canonicalOrder (fun n : Node => n.keys) nodes).map
          fun n => (n.toNodeHead, Node.render indent n) := canonicalOrder_map (fun _ => rfl) nodes
  rw [inOrder, h, hmap, List.flatMap_map, render_eq_flatMap]

theorem formatTexts_eq (nodes : List Node) : ∀ indent,
    formatTexts indent nodes
      = (canonicalEach nodes).map fun n => (n.toNodeHead, Node.render indent n) := by
  refine forest_induction (motive := fun nodes => ∀ indent, formatTexts indent nodes
    = (canonicalEach nodes).map fun n => (n.toNodeHead, Node.render indent n)) ?_ ?_ nodes
  · exact fun _ => rfl
  · rintro ⟨head, children⟩ rest ihc ihr indent
    have hbody := inOrder_eq (ihc (indent + 1))
    rw [formatTexts, ihr, canonicalEach, List.map_cons, Node.format, Node.canonical, Node.render,
      statementText, hbody]

/-- **Formatting is rendering the canonical tree.** -/
theorem formatNodes_eq (indent : ℕ) (nodes : List Node) :
    formatNodes indent nodes = render indent (canonicalForest nodes) :=
  inOrder_eq (formatTexts_eq nodes indent)

/-! ## What a tree says -/

/-- The keys, the kind, the annotation and the `inactive:` of a node, without the masks
that say how it was authored. -/
def coreHead (n : NodeHead) : NodeHead :=
  { keys := n.keys, isLeaf := n.isLeaf, annotationText := n.annotationText, inactive := n.inactive }

mutual

/-- The content of a node. -/
def Node.core : Node → Node
  | ⟨n, children⟩ => ⟨coreHead n, nodesCore children⟩

/-- The content of a forest. -/
def nodesCore : List Node → List Node
  | [] => []
  | n :: rest => Node.core n :: nodesCore rest

end

theorem nodesCore_eq_map (nodes : List Node) : nodesCore nodes = nodes.map Node.core := by
  induction nodes with
  | nil => rfl
  | cons n rest ih => rw [nodesCore, ih, List.map_cons]

theorem core_eq (n : Node) : Node.core n = ⟨coreHead n.toNodeHead, nodesCore n.children⟩ := by
  obtain ⟨head, children⟩ := n
  rw [Node.core]

end Xpf.ConfigCanonical
