/-
The candidate tree as the program holds it, and the edits that move nodes in it:
`CopyPath`, `RenamePath` and `insertRelative` of `pkg/config/ast_edit.go`, with the
resolvers `findNodeWithParent` and `childrenAtPath`.

A `*Node` is a pointer, and these edits compare pointers: a node is an object with an
identity here, and a `*[]*Node` is the identity of the node that owns the slice, `0` for
the tree itself. An edit through a pointer changes the object with that identity where the
tree reaches it; an object the tree no longer reaches is garbage. Each edit gives the
children of the tree after the call and the error it returns, if any.

A position in a path is the rest of the path behind it.
-/
import Xpf.ConfigAst
import Xpf.Loop

set_option autoImplicit false

namespace Xpf.ConfigObjects

open Xpf.GoStrings Xpf.ConfigAst

/-! ## Objects -/

/-- A node, with its identity. -/
structure Obj where
  id : ℕ
  head : NodeHead
  children : List Obj

/-- **Induction over objects**: a sibling list is empty, or a node whose children and whose
later siblings are smaller. -/
theorem objects_induction {motive : List Obj → Prop} (nil : motive [])
    (cons : ∀ n rest, motive n.children → motive rest → motive (n :: rest)) : ∀ nodes, motive nodes :=
  @Obj.rec_1 (fun n => motive n.children) motive (fun _ _ _ ih => ih) nil (fun n rest h1 h2 => cons n rest h1 h2)

/-- What the tree says of one node: which node owns the slice it is in, which node it is,
and its fields. -/
structure Fact where
  parent : ℕ
  id : ℕ
  head : NodeHead
deriving DecidableEq

mutual

/-- What the tree says of a node and of everything below it. -/
def Obj.facts (parent : ℕ) : Obj → List Fact
  | ⟨id, head, children⟩ => ⟨parent, id, head⟩ :: facts id children

/-- What the tree says of a sibling list. -/
def facts (parent : ℕ) : List Obj → List Fact
  | [] => []
  | n :: rest => n.facts parent ++ facts parent rest

end

/-- The nodes of a sibling list and below. -/
def ids (nodes : List Obj) : List ℕ := (facts 0 nodes).map Fact.id

/-- `ConfigTree`: no node is in two places, and `next` is the identity of the next node
that is allocated. -/
structure ConfigTree where
  children : List Obj
  next : ℕ
  distinct : (ids children).Nodup
  allocated : ∀ i ∈ ids children, 0 < i ∧ i < next

mutual

/-- `*slice = f(*slice)` for the slice of the children of a node, below a node. -/
def Obj.updateChildren (id : ℕ) (f : List Obj → List Obj) : Obj → Obj
  | ⟨i, head, children⟩ => ⟨i, head, if i = id then f children else updateChildren id f children⟩

/-- `*slice = f(*slice)` for the slice of the children of a node, below a sibling list. -/
def updateChildren (id : ℕ) (f : List Obj → List Obj) : List Obj → List Obj
  | [] => []
  | n :: rest => n.updateChildren id f :: updateChildren id f rest

end

/-- `*slice = f(*slice)`, for the tree's own slice too. -/
def updateSlice (owner : ℕ) (f : List Obj → List Obj) (roots : List Obj) : List Obj :=
  if owner = 0 then f roots else updateChildren owner f roots

mutual

/-- The fields of one node changed. -/
def Obj.updateHead (id : ℕ) (head : NodeHead) : Obj → Obj
  | ⟨i, h, children⟩ => ⟨i, if i = id then head else h, updateHead id head children⟩

/-- The fields of one node changed, below a sibling list. -/
def updateHead (id : ℕ) (head : NodeHead) : List Obj → List Obj
  | [] => []
  | n :: rest => n.updateHead id head :: updateHead id head rest

end

mutual

/-- `cloneNodes` of one node: a copy made of new nodes. -/
def Obj.clone (next : ℕ) : Obj → Obj × ℕ
  | ⟨_, head, children⟩ =>
    let (copies, next') := cloneNodes (next + 1) children
    (⟨next, head, copies⟩, next')

/-- `cloneNodes`. -/
def cloneNodes (next : ℕ) : List Obj → List Obj × ℕ
  | [] => ([], next)
  | n :: rest =>
    let (copy, next') := n.clone next
    let (copies, next'') := cloneNodes next' rest
    (copy :: copies, next'')

end

/-! ## Resolving a path -/

/-- `matchNodeKeysFull`: how much of the path a node takes. -/
def matchNodeKeysFull (keys path : List Bytes) : ℕ :=
  if keys.length = 0 ∨ path.length = 0 then 0
  else if keys.length ≤ path.length then if keys.isPrefixOf path then keys.length else 0
  else if path.isPrefixOf keys then path.length else 0

/-- One sibling of the search for the best match: the node, what it takes of the path, and
whether that is all its keys. -/
def betterChild (path : List Bytes) (best : Option (Obj × ℕ × Bool)) (child : Obj) : Option (Obj × ℕ × Bool) :=
  let consumed := matchNodeKeysFull child.head.keys path
  if consumed = 0 then best
  else
    let exact : Bool := consumed = child.head.keys.length
    match best with
    | none => some (child, consumed, exact)
    | some (_, bestConsumed, bestExact) =>
      if (exact && !bestExact) || (exact == bestExact && bestConsumed < consumed) then some (child, consumed, exact)
      else best

def bestChild (siblings : List Obj) (path : List Bytes) : Option (Obj × ℕ × Bool) :=
  siblings.foldl (betterChild path) none

/-- A slice of children with its owner, and the path that is left. -/
structure Cursor where
  owner : ℕ
  siblings : List Obj
  path : List Bytes

/-- A node that was found, and the slice it is in. -/
structure Found where
  node : Obj
  owner : ℕ
  siblings : List Obj

/-- The loop of `findNodeWithParent`. -/
def findStep (c : Cursor) : Cursor ⊕ Option Found :=
  if c.path = [] then .inr none
  else
    match bestChild c.siblings c.path with
    | none => .inr none
    | some (child, consumed, exact) =>
      if c.path.length ≤ consumed then .inr (if exact then some ⟨child, c.owner, c.siblings⟩ else none)
      else .inl ⟨child.id, child.children, c.path.drop consumed⟩

/-- `findNodeWithParent`. -/
def findNodeWithParent (t : ConfigTree) (path : List Bytes) : Option Found :=
  Loop.run findStep (fun _ => none) (fun c => c.path.length) ⟨0, t.children, path⟩

/-- The loop of `childrenAtPath`. -/
def childrenStep (c : Cursor) : Cursor ⊕ Option Cursor :=
  if c.path = [] then .inr (some c)
  else
    match bestChild c.siblings c.path with
    | none => .inr none
    | some (child, consumed, _) => .inl ⟨child.id, child.children, c.path.drop consumed⟩

/-- `childrenAtPath`: the owner of the slice and what is in it. -/
def childrenAtPath (t : ConfigTree) (path : List Bytes) : Option Cursor :=
  Loop.run childrenStep (fun _ => none) (fun c => c.path.length) ⟨0, t.children, path⟩

/-! ## Edits -/

/-- An error, and whether it wraps `ErrPathNotFound`. -/
structure EditError where
  text : Bytes
  pathNotFound : Bool := false
deriving DecidableEq

/-- The children of the tree after an edit, and its error. -/
abbrev Edited := List Obj × Option EditError

/-- `replaceKeys`. -/
def replaceKeys (head : NodeHead) (keys : List Bytes) (quoted bracketed : Mask) (closed : Bool) : NodeHead :=
  (({ head with keys := keys } : NodeHead).setKeysQuoted quoted).setKeysBracketed bracketed (some closed)

/-- `keyMask`. -/
def keyMask (mask : Mask) (keyCount : ℕ) : Mask := if maskLen mask ≠ keyCount then none else mask

/-- `rekeyBracketProvenance`. -/
def rekeyBracketProvenance (head : NodeHead) (changed : Bool) : NodeHead :=
  if !head.isLeaf || !changed then head else head.setKeysBracketed none (some false)

/-- The fields of a node under its new keys. -/
def rekeyed (head : NodeHead) (newKeys : List Bytes) (changed : Bool) : NodeHead :=
  rekeyBracketProvenance
    (replaceKeys head newKeys none (keyMask head.keysBracketed head.keys.length) head.bracketedClosed) changed

/-- `BareDestinationParent`. -/
def bareDestinationParent (src dst : List Bytes) (nk : ℕ) : List Bytes :=
  let dstParentPath := dst.take (dst.length - nk)
  if dstParentPath.length ≠ 0 ∨ src.length ≤ nk then dstParentPath else src.take (src.length - nk)

/-- The last keys of the destination. -/
def newKeys (dst : List Bytes) (nk : ℕ) : List Bytes := dst.drop (dst.length - nk)

/-- `strings.Join(path, " ")`. -/
def joined (path : List Bytes) : Bytes := join (bytes " ") path

namespace ConfigTree

variable (t : ConfigTree)

/-- An edit that leaves the tree as it was. -/
def refuse (error : EditError) : Edited := (t.children, some error)

/-- `CopyPath`. -/
def copyPath (src dst : List Bytes) : Edited :=
  if src.length = 0 ∨ dst.length = 0 then t.refuse ⟨bytes "empty path", false⟩
  else
    match findNodeWithParent t src with
    | none => t.refuse ⟨bytes "path not found: source " ++ joined src, true⟩
    | some source =>
      let nk := source.node.head.keys.length
      if dst.length < nk then t.refuse ⟨bytes "destination path too short", false⟩
      else
        match childrenAtPath t (bareDestinationParent src dst nk) with
        | none =>
          t.refuse ⟨bytes "path not found: destination parent " ++ joined (bareDestinationParent src dst nk), true⟩
        | some dstParent =>
          if dstParent.siblings.any (fun n => n.head.keys = newKeys dst nk) then
            t.refuse ⟨bytes "copy target already exists: " ++ joined dst, false⟩
          else
            let cloned := (source.node.clone t.next).1
            let cloned := { cloned with head := rekeyed cloned.head (newKeys dst nk) true }
            (updateSlice dstParent.owner (· ++ [cloned]) t.children, none)

/-- `RenamePath`. -/
def renamePath (src dst : List Bytes) : Edited :=
  if src.length = 0 ∨ dst.length = 0 then t.refuse ⟨bytes "empty path", false⟩
  else
    match findNodeWithParent t src with
    | none => t.refuse ⟨bytes "source not found: " ++ joined src, false⟩
    | some source =>
      let srcNode := source.node
      let nk := srcNode.head.keys.length
      if dst.length < nk then t.refuse ⟨bytes "destination path too short", false⟩
      else
        match childrenAtPath t (bareDestinationParent src dst nk) with
        | none =>
          t.refuse ⟨bytes "destination parent not found: " ++ joined (bareDestinationParent src dst nk), false⟩
        | some dstParent =>
          if dstParent.siblings.any (fun n => n.id ≠ srcNode.id && n.head.keys = newKeys dst nk) then
            t.refuse ⟨bytes "rename target already exists: " ++ joined dst, false⟩
          else
            let changed : Bool := srcNode.head.keys ≠ newKeys dst nk
            let head := rekeyed srcNode.head (newKeys dst nk) changed
            if dstParent.owner = source.owner then (updateHead srcNode.id head t.children, none)
            else
              let detached := updateSlice source.owner (·.eraseP (fun n => n.id = srcNode.id)) t.children
              (updateSlice dstParent.owner (· ++ [{ srcNode with head := head }]) detached, none)

/-- `insertRelative`. -/
def insertRelative (elementPath refPath : List Bytes) (after : Bool) : Edited :=
  if elementPath.length = 0 ∨ refPath.length = 0 then t.refuse ⟨bytes "empty path", false⟩
  else
    match findNodeWithParent t elementPath with
    | none => t.refuse ⟨bytes "element not found: " ++ joined elementPath, false⟩
    | some element =>
      match findNodeWithParent t refPath with
      | none => t.refuse ⟨bytes "reference not found: " ++ joined refPath, false⟩
      | some reference =>
        if element.owner ≠ reference.owner then t.refuse ⟨bytes "elements must be siblings (same parent)", false⟩
        else if element.node.id = reference.node.id then (t.children, none)
        else
          match element.siblings.findIdx? (fun n => n.id = element.node.id) with
          | none => t.refuse ⟨bytes "element not found in parent", false⟩
          | some elemIdx =>
            let rest := element.siblings.eraseIdx elemIdx
            match rest.findIdx? (fun n => n.id = reference.node.id) with
            | none =>
              (updateSlice element.owner (fun _ => rest) t.children, some ⟨bytes "reference not found in parent", false⟩)
            | some refIdx =>
              let insertAt := if after then refIdx + 1 else refIdx
              (updateSlice element.owner (fun _ => rest.insertIdx insertAt element.node) t.children, none)

end ConfigTree

end Xpf.ConfigObjects
