/-
The configuration diff: `FormatCompare` of `pkg/config/ast_format.go`.

Two sibling lists are aligned (`alignSiblings`): siblings with the same identity are
paired, equal ones first, and a pair off the longest increasing subsequence is a move. A
level whose changes all lie deeper is descended through; any other level prints its
`[edit ...]` header, what was removed, and the new siblings with their changes.

The source ranges over a map of identities to find the pairs, so their order is not
determined by the two trees. `MapOrder` stands for the order Go chose: for every call,
named by the way the recursion went to it, a permutation of the keys of the map.
-/
import Xpf.ConfigFormat
import Xpf.Increasing
import Mathlib.Data.List.Sort

set_option autoImplicit false

namespace Xpf.ConfigCompare

open Xpf.GoStrings Xpf.ConfigAst Xpf.ConfigFormat Xpf.Increasing

/-! ## Identity and equality -/

/-- `KeyPath`. -/
def keyPath (n : NodeHead) : Bytes := join (bytes " ") n.keys

/-- The digits of a number, with fuel. -/
def decimalFuel : ℕ → ℕ → Bytes
  | 0, _ => []
  | fuel + 1, n =>
    if n < 10 then [48 + n.toUInt8] else decimalFuel fuel (n / 10) ++ [48 + (n % 10).toUInt8]

/-- `%d`. -/
def decimal (n : ℕ) : Bytes := decimalFuel (n + 1) n

/-- `%t`. -/
def boolText (b : Bool) : Bytes := if b then bytes "true" else bytes "false"

/-- What `keyProvenanceID` writes for the key `i`. -/
def keyMark (i : ℕ) (quoted bracketed : Bool) : Bytes :=
  0 :: (decimal i ++ bytes ":" ++ boolText quoted ++ bytes ":" ++ boolText bracketed)

/-- `keyProvenanceID`: the joined keys, then for each key its index and its marks. -/
def keyProvenanceID (n : NodeHead) : Bytes :=
  keyPath n ++ (List.range n.keys.length).flatMap fun i => keyMark i (n.keyQuoted i) (n.keyBracketed i)

/-- `sameKeyProvenance`. -/
def sameKeyProvenance (a b : NodeHead) : Bool :=
  a.keys.length == b.keys.length
    && (List.range a.keys.length).all fun i =>
        a.keyQuoted i == b.keyQuoted i && a.keyBracketed i == b.keyBracketed i

/-- The part of `nodesEqual` that looks at one node of each tree. -/
def headsEqual (a b : NodeHead) : Bool :=
  keyPath a == keyPath b && sameKeyProvenance a b && a.isLeaf == b.isLeaf
    && a.inactive == b.inactive && a.annotationText == b.annotationText

mutual

/-- `nodesEqual`. -/
def nodesEqual : Node → Node → Bool
  | ⟨a, children⟩, b =>
    headsEqual a b.toNodeHead
      && (a.isLeaf
        || (children.length == b.children.length
          && ((canonicalOrder (·.1) (equalTo children)).zip
              (canonicalOrder (fun n => n.keys) b.children)).all fun p => p.1.2 p.2))

/-- Every node of a sibling list with its keys, as a test for equality. -/
def equalTo : List Node → List (List Bytes × (Node → Bool))
  | [] => []
  | n :: rest => (n.keys, nodesEqual n) :: equalTo rest

end

/-! ## Alignment -/

/-- `siblingAlignment`. -/
structure SiblingAlignment where
  pairs : List (ℕ × ℕ)
  movedOld : List ℕ
  movedNew : List ℕ
  oldOnly : List ℕ
  newOnly : List ℕ

/-- The indices of the siblings with a given identity: one entry of `oldByKey` or
`newByKey`. -/
def indicesOf (id : Bytes) (nodes : List Node) : List ℕ :=
  (List.range nodes.length).filter fun i =>
    nodes[i]?.any fun n => keyProvenanceID n.toNodeHead == id

/-- The pairs of equal siblings: for each old index the first new one that is not used
yet. -/
def equalPairs (equal : ℕ → ℕ → Bool) (news : List ℕ) : List ℕ → List ℕ → List (ℕ × ℕ)
  | _, [] => []
  | used, oi :: olds =>
    match news.find? fun ni => !used.contains ni && equal oi ni with
    | some ni => (oi, ni) :: equalPairs equal news (ni :: used) olds
    | none => equalPairs equal news used olds

/-- The other siblings of the identity, in order: each takes the next new index that is
left. -/
def restPairs (paired : List (ℕ × ℕ)) : List ℕ → List ℕ → List (ℕ × ℕ)
  | _, [] => []
  | left, oi :: olds =>
    match paired.find? (·.1 == oi) with
    | some p => p :: restPairs paired left olds
    | none =>
      match left with
      | [] => restPairs paired [] olds
      | ni :: left => (oi, ni) :: restPairs paired left olds

/-- The pairs of one identity. -/
def groupPairs (equal : ℕ → ℕ → Bool) (olds news : List ℕ) : List (ℕ × ℕ) :=
  let paired := equalPairs equal news [] olds
  let left := news.filter fun ni => !(paired.map (·.2)).contains ni
  restPairs paired left olds

/-- `markMovedPairs`: the old indices on the longest increasing subsequence of new
indices, the pairs taken in old order. `dpL` and `prev` are the lengths and the tails of
the chains of `Increasing.chains`. -/
def onLis (pairs : List (ℕ × ℕ)) : List ℕ :=
  (longest (fun p : ℕ × ℕ => p.2) (pairs.insertionSort fun x y => x.1 ≤ y.1)).map (·.1)

/-- The identities of a sibling list: the keys of the map. -/
def identities (nodes : List Node) : List Bytes :=
  (nodes.map fun n => keyProvenanceID n.toNodeHead).dedup

/-- Equality of an old and a new sibling by their indices. -/
def equalAt (old new : List Node) (oi ni : ℕ) : Bool :=
  match old[oi]?, new[ni]? with
  | some o, some n => nodesEqual o n
  | _, _ => false

/-- `alignSiblings`, with the order in which it ranges over the identities. -/
def alignSiblings (order : List Bytes → List Bytes) (old new : List Node) : SiblingAlignment :=
  let pairs := (order (identities old)).flatMap fun id =>
    groupPairs (equalAt old new) (indicesOf id old) (indicesOf id new)
  let moved := pairs.filter fun p => !(onLis pairs).contains p.1
  { pairs
    movedOld := moved.map (·.1)
    movedNew := moved.map (·.2)
    oldOnly := (List.range old.length).filter fun i => !(pairs.map (·.1)).contains i
    newOnly := (List.range new.length).filter fun i => !(pairs.map (·.2)).contains i }

/-! ## Lines -/

mutual

/-- `formatPrefixed`. -/
def Node.formatPrefixed (sign : Bytes) (indent : ℕ) : Node → Bytes
  | ⟨n, children⟩ =>
    (if n.annotationText = [] then [] else sign ++ annotationLine indent n)
      ++ sign ++ indentation indent ++ inactivePrefix n ++ formatNodeKeyPath n
      ++ if n.isLeaf then bytes ";\n"
        else bytes " \x7b\n" ++ inOrder (prefixedTexts sign (indent + 1) children)
          ++ sign ++ indentation indent ++ bytes "\x7d\n"

/-- Every node of a sibling list with its lines, which `formatPrefixedChildren` writes in
canonical order. -/
def prefixedTexts (sign : Bytes) (indent : ℕ) : List Node → List (NodeHead × Bytes)
  | [] => []
  | n :: rest =>
    (n.toNodeHead, Node.formatPrefixed sign indent n) :: prefixedTexts sign indent rest

end

/-- `formatAnnotationChange`. -/
def formatAnnotationChange (indent : ℕ) (o n : NodeHead) : Bytes :=
  (if o.annotationText = [] then [] else bytes "-" ++ annotationLine indent o)
    ++ if n.annotationText = [] then [] else bytes "+" ++ annotationLine indent n

/-- The lines of an unchanged sibling, its block collapsed. -/
def contextLines (indent : ℕ) (o : NodeHead) : Bytes :=
  (if o.annotationText = [] then [] else bytes " " ++ annotationLine indent o)
    ++ bytes " " ++ indentation indent ++ inactivePrefix o ++ formatNodeKeyPath o
    ++ if o.isLeaf then bytes ";\n" else bytes " \x7b ... \x7d\n"

/-- `JoinConfigPathTokens`. -/
def joinConfigPathTokens (tokens : List Bytes) : Bytes := join (bytes " ") (tokens.map quoteKey)

/-- The header of a level. -/
def editHeader (editPath : List Bytes) : Bytes :=
  if editPath = [] then bytes "[edit]\n"
  else bytes "[edit " ++ joinConfigPathTokens editPath ++ bytes "]\n"

/-! ## One level -/

/-- `diffEntry`: an aligned pair that differs, with its old index. -/
structure DiffEntry where
  oldIdx : ℕ
  oldNode : Node
  newNode : Node
  moved : Bool

/-- Both nodes are blocks with the same `inactive:`. -/
def sameBlock (o n : NodeHead) : Bool := !o.isLeaf && !n.isLeaf && o.inactive == n.inactive

/-- The entry of a pair, if `siblingChanged`. -/
def changedEntry (al : SiblingAlignment) (old new : List Node) (p : ℕ × ℕ) : Option DiffEntry :=
  match old[p.1]?, new[p.2]? with
  | some o, some n =>
    if al.movedOld.contains p.1 || !nodesEqual o n then
      some ⟨p.1, o, n, al.movedOld.contains p.1⟩
    else none
  | _, _ => none

/-- The changed entries, in the order of the pairs. -/
def changedEntries (al : SiblingAlignment) (old new : List Node) : List DiffEntry :=
  al.pairs.filterMap (changedEntry al old new)

/-- `hasMoveOrUnpaired`. -/
def hasMoveOrUnpaired (al : SiblingAlignment) (entries : List DiffEntry) : Bool :=
  !al.oldOnly.isEmpty || !al.newOnly.isEmpty || entries.any (·.moved)

/-- The change of an entry lies below it. -/
def DiffEntry.recursable (e : DiffEntry) : Bool :=
  sameBlock e.oldNode.toNodeHead e.newNode.toNodeHead
    && e.oldNode.annotationText == e.newNode.annotationText

/-- The level is only descended through: `!hasMoveOrUnpaired` and `allRecursable`. -/
def descends (al : SiblingAlignment) (entries : List DiffEntry) : Bool :=
  !hasMoveOrUnpaired al entries && entries.all (·.recursable)

/-- `section`: lines of this level, or a pair of blocks to descend into. -/
inductive Section
  | own (text : Bytes)
  | arm (oldIdx : ℕ) (oldNode newNode : Node)

/-- `addOwn`. -/
def addOwn (text : Bytes) : List Section := if text = [] then [] else [.own text]

/-- The section of an old sibling: deleted and moved-out ones are removals. -/
def oldSections (al : SiblingAlignment) (o : Node) (oi : ℕ) : List Section :=
  if al.oldOnly.contains oi || al.movedOld.contains oi then
    addOwn (Node.formatPrefixed (bytes "-") 1 o)
  else []

/-- The sections of a new sibling paired in place. -/
def pairedSections (oi : ℕ) (o n : Node) : List Section :=
  if nodesEqual o n then addOwn (contextLines 1 o.toNodeHead)
  else if o.annotationText ≠ n.annotationText && sameBlock o.toNodeHead n.toNodeHead then
    addOwn (formatAnnotationChange 1 o.toNodeHead n.toNodeHead) ++ [.arm oi o n]
  else if sameBlock o.toNodeHead n.toNodeHead then [.arm oi o n]
  else addOwn (Node.formatPrefixed (bytes "-") 1 o ++ Node.formatPrefixed (bytes "+") 1 n)

/-- The sections of a new sibling; no two pairs share a new index. -/
def newSections (al : SiblingAlignment) (old : List Node) (n : Node) (ni : ℕ) : List Section :=
  match al.pairs.find? (·.2 == ni) with
  | none => addOwn (Node.formatPrefixed (bytes "+") 1 n)
  | some p =>
    if al.movedNew.contains ni then addOwn (Node.formatPrefixed (bytes "+") 1 n)
    else
      match old[p.1]? with
      | none => []
      | some o => pairedSections p.1 o n

/-- The sections of a level: removals in old order, then the new siblings. -/
def sections (al : SiblingAlignment) (old new : List Node) : List Section :=
  (old.zipIdx.flatMap fun t => oldSections al t.1 t.2)
    ++ new.zipIdx.flatMap fun t => newSections al old t.1 t.2

/-- The section has lines of its own. -/
def Section.isOwn : Section → Bool
  | .own _ => true
  | .arm _ _ _ => false

/-- The loop that writes the sections. The header stands in front of each run of own
lines; `pending` is `headerPending`. -/
def writeSections (header : Bytes) (hasOwn : Bool) (recurse : ℕ → Node → Node → Bytes) :
    Bool → List Section → Bytes
  | _, [] => []
  | pending, .own text :: rest =>
    (if pending then header else []) ++ text ++ writeSections header hasOwn recurse false rest
  | pending, .arm oi o n :: rest =>
    let below := recurse oi o n
    below ++ writeSections header hasOwn recurse (if below = [] then pending else hasOwn) rest

/-- The body of `diffNodes`, with the recursive calls as a parameter. -/
def diffLevel (recurse : ℕ → Node → Node → Bytes) (al : SiblingAlignment) (old new : List Node)
    (editPath : List Bytes) : Bytes :=
  let entries := changedEntries al old new
  if entries.isEmpty && al.oldOnly.isEmpty && al.newOnly.isEmpty then []
  else if descends al entries then
    entries.flatMap fun e => recurse e.oldIdx e.oldNode e.newNode
  else
    let all := sections al old new
    let hasOwn := all.any (·.isOwn)
    writeSections (editHeader editPath) hasOwn recurse hasOwn all

/-! ## The whole diff -/

/-- The orders in which the maps of identities are ranged over, one for each call of
`alignSiblings`. A call is named by the old indices on the way to it. -/
structure MapOrder where
  order : List ℕ → List Bytes → List Bytes
  perm : ∀ call ids, (order call ids).Perm ids

/-- A call of `diffNodes` on the children of an old node: the new children, the name of
the call and its path are left open. -/
abbrev DiffBelow := List Node → List ℕ → List Bytes → Bytes

/-- The recursive call for a pair, from the calls below the old siblings. -/
def recurseInto (below : List DiffBelow) (call : List ℕ) (editPath : List Bytes) (oi : ℕ)
    (o n : Node) : Bytes :=
  match below[oi]? with
  | none => []
  | some diff => diff n.children (call ++ [oi]) (editPath ++ o.keys)

mutual

/-- `diffNodes` on the children of a node. -/
def Node.diffBelow (maps : MapOrder) : Node → DiffBelow
  | ⟨_, children⟩ => fun new call editPath =>
    diffLevel (recurseInto (diffsBelow maps children) call editPath)
      (alignSiblings (maps.order call) children new) children new editPath

/-- The calls below the siblings of a list. -/
def diffsBelow (maps : MapOrder) : List Node → List DiffBelow
  | [] => []
  | n :: rest => Node.diffBelow maps n :: diffsBelow maps rest

end

/-- `diffNodes`. -/
def diffNodes (maps : MapOrder) (old new : List Node) (call : List ℕ) (editPath : List Bytes) :
    Bytes :=
  diffLevel (recurseInto (diffsBelow maps old) call editPath)
    (alignSiblings (maps.order call) old new) old new editPath

/-- `FormatCompare`. -/
def formatCompare (maps : MapOrder) (old new : List Node) : Bytes := diffNodes maps old new [] []

end Xpf.ConfigCompare
