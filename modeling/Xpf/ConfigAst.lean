/-
The configuration tree: `Node` of `pkg/config/ast.go` and the key setters of
`pkg/config/ast_keys.go`.

A node keeps its keys and, next to them, two masks saying for each key whether it was
authored as a quoted string and whether it stood inside a `[ ... ]` list. A mask is a
Go slice that may be `nil`: `none` here, while `some []` is an allocated empty one.
Everything that writes a mask goes through the setters below, which is why `MaskOk`
(`nil`, or as long as the keys) is stated next to them.

The fields that only group expansion and the compiler read (`InheritedFrom`,
`fromGroups` and the three that follow it) are left out.
-/
import Xpf.GoStrings

set_option autoImplicit false

namespace Xpf.ConfigAst

open Xpf.GoStrings

/-- A `[]bool` next to the keys. -/
abbrev Mask := Option (List Bool)

/-- The fields of a `Node` other than its children. -/
structure NodeHead where
  keys : List Bytes
  isLeaf : Bool := false
  annotationText : Bytes := []
  inactive : Bool := false
  keysQuoted : Mask := none
  keysBracketed : Mask := none
  bracketedClosed : Bool := false
  line : ℕ := 0
  column : ℕ := 0
  deriving Repr, DecidableEq

/-- `Node`. -/
structure Node extends NodeHead where
  children : List Node := []
  deriving Repr

/-- **Induction over a forest**: a sibling list is empty, or a node whose children and
whose later siblings are smaller forests. -/
theorem forest_induction {motive : List Node → Prop} (nil : motive [])
    (cons : ∀ n rest, motive n.children → motive rest → motive (n :: rest)) :
    ∀ nodes, motive nodes :=
  @Node.rec_1 (fun n => motive n.children) motive (fun _ _ ih => ih) nil (fun n rest h1 h2 => cons n rest h1 h2)

/-- **Induction level by level**: a sibling list comes after the children of each of its
nodes. -/
theorem level_induction {motive : List Node → Prop}
    (level : ∀ nodes, (∀ n ∈ nodes, motive n.children) → motive nodes) : ∀ nodes, motive nodes := by
  intro nodes
  refine level nodes ?_
  refine forest_induction (motive := fun nodes => ∀ n ∈ nodes, motive n.children) ?_ ?_ nodes
  · exact fun n hn => absurd hn List.not_mem_nil
  · intro n rest ihc ihr m hm
    rcases List.mem_cons.mp hm with rfl | hm
    · exact level _ ihc
    · exact ihr m hm

mutual

/-- Equality of nodes is decided head by head. -/
def Node.decEq : (a b : Node) → Decidable (a = b)
  | ⟨h, cs⟩, ⟨h', cs'⟩ =>
    match instDecidableEqNodeHead h h', Node.decEqs cs cs' with
    | isTrue rfl, isTrue rfl => isTrue rfl
    | isFalse hne, _ => isFalse fun heq => hne (congrArg Node.toNodeHead heq)
    | _, isFalse hne => isFalse fun heq => hne (congrArg Node.children heq)

/-- Equality of sibling lists. -/
def Node.decEqs : (as bs : List Node) → Decidable (as = bs)
  | [], [] => isTrue rfl
  | [], _ :: _ => isFalse nofun
  | _ :: _, [] => isFalse nofun
  | a :: as, b :: bs =>
    match Node.decEq a b, Node.decEqs as bs with
    | isTrue rfl, isTrue rfl => isTrue rfl
    | isFalse hne, _ => isFalse fun heq => hne (List.cons.inj heq).1
    | _, isFalse hne => isFalse fun heq => hne (List.cons.inj heq).2

end

instance : DecidableEq Node := Node.decEq

/-! ## Key masks -/

/-- `len(mask)`. -/
def maskLen (mask : Mask) : ℕ := (mask.getD []).length

/-- `KeyQuoted`: false for an absent or misaligned mask and out of range. -/
def NodeHead.keyQuoted (n : NodeHead) (i : ℕ) : Bool :=
  if maskLen n.keysQuoted ≠ n.keys.length then false
  else (n.keysQuoted.getD []).getD i false

/-- `KeyBracketed`. -/
def NodeHead.keyBracketed (n : NodeHead) (i : ℕ) : Bool :=
  if maskLen n.keysBracketed ≠ n.keys.length then false
  else (n.keysBracketed.getD []).getD i false

/-- A mask the setters accept: as long as the keys, with at least one bit set. -/
def normalizeMask (keys : List Bytes) (mask : Mask) : Mask :=
  if maskLen mask = keys.length ∧ true ∈ mask.getD [] then mask else none

/-- `setKeysQuoted`. -/
def NodeHead.setKeysQuoted (n : NodeHead) (quoted : Mask) : NodeHead :=
  { n with keysQuoted := normalizeMask n.keys quoted }

/-- `setKeysBracketed`; `closed` is the optional last argument. -/
def NodeHead.setKeysBracketed (n : NodeHead) (bracketed : Mask) (closed : Option Bool := none) :
    NodeHead :=
  { n with
    keysBracketed := normalizeMask n.keys bracketed
    bracketedClosed :=
      match closed with
      | none => n.bracketedClosed
      | some closed => closed && (normalizeMask n.keys bracketed).isSome }

/-- `nil`, or as long as the keys. -/
def MaskOk (keys : List Bytes) (mask : Mask) : Prop := ∀ m ∈ mask, m.length = keys.length

/-- The key-mask invariant of one node. -/
structure MasksOk (n : NodeHead) : Prop where
  quoted : MaskOk n.keys n.keysQuoted
  bracketed : MaskOk n.keys n.keysBracketed

theorem maskOk_none (keys : List Bytes) : MaskOk keys none := by
  intro m hm
  cases hm

theorem normalizeMask_ok (keys : List Bytes) (mask : Mask) :
    MaskOk keys (normalizeMask keys mask) := by
  rw [normalizeMask]
  split_ifs with h
  · intro m hm
    rw [Option.mem_def.mp hm] at h
    exact h.1
  · exact maskOk_none keys

/-- The setters establish the invariant whatever masks they are given. -/
theorem setKeys_masksOk (n : NodeHead) (quoted bracketed : Mask) (closed : Option Bool) :
    MasksOk ((n.setKeysQuoted quoted).setKeysBracketed bracketed closed) :=
  ⟨normalizeMask_ok n.keys quoted, normalizeMask_ok n.keys bracketed⟩

/-! ## The whole tree -/

mutual

/-- A property of every node of a tree. -/
def Node.Forall (P : Node → Prop) : Node → Prop
  | ⟨head, children⟩ => P ⟨head, children⟩ ∧ NodesForall P children

/-- A property of every node of a forest. -/
def NodesForall (P : Node → Prop) : List Node → Prop
  | [] => True
  | n :: rest => n.Forall P ∧ NodesForall P rest

end

mutual

/-- A property of every node of a tree is decided node by node. -/
def Node.decForall (P : Node → Prop) [DecidablePred P] : (n : Node) → Decidable (n.Forall P)
  | ⟨head, children⟩ =>
    have := decNodesForall P children
    decidable_of_iff (P ⟨head, children⟩ ∧ NodesForall P children) (by rw [Node.Forall])

/-- A property of every node of a forest is decided node by node. -/
def decNodesForall (P : Node → Prop) [DecidablePred P] :
    (nodes : List Node) → Decidable (NodesForall P nodes)
  | [] => isTrue trivial
  | n :: rest =>
    have := Node.decForall P n
    have := decNodesForall P rest
    decidable_of_iff (n.Forall P ∧ NodesForall P rest) (by rw [NodesForall])

end

instance (P : Node → Prop) [DecidablePred P] (nodes : List Node) :
    Decidable (NodesForall P nodes) := decNodesForall P nodes

theorem nodesForall_cons {P : Node → Prop} {n : Node} {rest : List Node} :
    NodesForall P (n :: rest) ↔ (P n ∧ NodesForall P n.children) ∧ NodesForall P rest := by
  obtain ⟨head, children⟩ := n
  rw [NodesForall, Node.Forall]

theorem nodesForall_append {P : Node → Prop} {as bs : List Node} :
    NodesForall P (as ++ bs) ↔ NodesForall P as ∧ NodesForall P bs := by
  induction as with
  | nil => rw [List.nil_append, NodesForall, true_and]
  | cons a as ih => rw [List.cons_append, NodesForall, NodesForall, ih, and_assoc]

theorem nodesForall_iff {P : Node → Prop} {nodes : List Node} :
    NodesForall P nodes ↔ ∀ n ∈ nodes, P n ∧ NodesForall P n.children := by
  induction nodes with
  | nil => exact ⟨fun _ => nofun, fun _ => trivial⟩
  | cons m rest ih => rw [nodesForall_cons, ih, List.forall_mem_cons]

theorem nodesForall_mono {P Q : Node → Prop} (h : ∀ n, P n → Q n) {nodes : List Node} :
    NodesForall P nodes → NodesForall Q nodes := by
  refine forest_induction (motive := fun nodes => NodesForall P nodes → NodesForall Q nodes)
    ?_ ?_ nodes
  · exact id
  · intro n rest ihc ihr hP
    rw [nodesForall_cons] at hP ⊢
    exact ⟨⟨h n hP.1.1, ihc hP.1.2⟩, ihr hP.2⟩

mutual

/-- The units of one node: itself, its keys and its children. -/
def Node.countUnits : Node → ℕ
  | ⟨head, children⟩ => 1 + head.keys.length + countNodeUnits children

/-- `countNodeUnits`, the body of `NodeCount`. -/
def countNodeUnits : List Node → ℕ
  | [] => 0
  | n :: rest => n.countUnits + countNodeUnits rest

end

theorem countNodeUnits_cons (n : Node) (rest : List Node) :
    countNodeUnits (n :: rest)
      = 1 + n.keys.length + countNodeUnits n.children + countNodeUnits rest := by
  obtain ⟨head, children⟩ := n
  rw [countNodeUnits, Node.countUnits]

theorem countNodeUnits_append (as bs : List Node) :
    countNodeUnits (as ++ bs) = countNodeUnits as + countNodeUnits bs := by
  induction as with
  | nil => rw [List.nil_append, countNodeUnits, Nat.zero_add]
  | cons a as ih => rw [List.cons_append, countNodeUnits, countNodeUnits, ih, Nat.add_assoc]

mutual

/-- The keys of one node and of everything below it, in document order. -/
def Node.allKeys : Node → List Bytes
  | ⟨head, children⟩ => head.keys ++ nodesAllKeys children

/-- The depth-first concatenation of the keys of a forest. -/
def nodesAllKeys : List Node → List Bytes
  | [] => []
  | n :: rest => n.allKeys ++ nodesAllKeys rest

end

theorem nodesAllKeys_cons (n : Node) (rest : List Node) :
    nodesAllKeys (n :: rest) = n.keys ++ nodesAllKeys n.children ++ nodesAllKeys rest := by
  obtain ⟨head, children⟩ := n
  rw [nodesAllKeys, Node.allKeys]

theorem nodesAllKeys_append (as bs : List Node) :
    nodesAllKeys (as ++ bs) = nodesAllKeys as ++ nodesAllKeys bs := by
  induction as with
  | nil => rw [List.nil_append, nodesAllKeys, List.nil_append]
  | cons a as ih => rw [List.cons_append, nodesAllKeys, nodesAllKeys, ih, List.append_assoc]

end Xpf.ConfigAst
