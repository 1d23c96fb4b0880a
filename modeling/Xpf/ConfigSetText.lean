/-
The flat `set` commands of a configuration: `FormatSet` and `FormatSetLines` of
`pkg/config/ast_format.go`, and `splitLines` of `pkg/configstore/store_format.go`.

One walker goes over the tree in canonical order. It keeps the path of the node it is at and the
two masks of the path in buffers that it cuts back and extends, and it calls a function for every
command. `FormatSet` joins the keys of a command to a text; `FormatSetLines` has its own code for
the keys, which appends them to a line buffer, and takes a line from the caller's old lines where
that has the same bytes.
-/
import Mathlib.Data.List.Induction
import Xpf.ConfigCanonical

set_option autoImplicit false

namespace Xpf.ConfigSetText

open Xpf.GoStrings Xpf.ConfigAst Xpf.ConfigFormat Xpf.ConfigCanonical

/-! ## Trimming and splitting -/

/-- The length of the white-space rune a text ends with, `0` when there is none. -/
def lastSpaceLen (s : Bytes) : ℕ :=
  if spaceLen (s.drop (s.length - 1)) = 1 then 1
  else if spaceLen (s.drop (s.length - 2)) = 2 then 2
  else if spaceLen (s.drop (s.length - 3)) = 3 then 3
  else 0

/-- White-space runes off the end, with the length as fuel. -/
def trimRightFuel : ℕ → Bytes → Bytes
  | 0, s => s
  | fuel + 1, s => if lastSpaceLen s = 0 then s else trimRightFuel fuel (s.take (s.length - lastSpaceLen s))

/-- `trimFormatSetLine`, and the second half of `strings.TrimSpace`. -/
def trimRight (s : Bytes) : Bytes := trimRightFuel s.length s

/-- White-space runes off the front, with the length as fuel. -/
def trimLeftFuel : ℕ → Bytes → Bytes
  | 0, s => s
  | fuel + 1, s => if spaceLen s = 0 then s else trimLeftFuel fuel (s.drop (spaceLen s))

/-- `strings.TrimSpace`. -/
def trimSpace (s : Bytes) : Bytes := trimRight (trimLeftFuel s.length s)

/-- `splitLines`: the lines that are not blank, trimmed. -/
def splitLines (s : Bytes) : List Bytes := ((s.splitOn '\n'.toUInt8).map trimSpace).filter fun line => !line.isEmpty

/-! ## The walker -/

inductive Verb
  | set
  | annotate
  | deactivate
  deriving DecidableEq, Repr

def Verb.text : Verb → Bytes
  | .set => bytes "set"
  | .annotate => bytes "annotate"
  | .deactivate => bytes "deactivate"

/-- What the walker hands to `emit`. A `singleBracketFrom` of -1 is `none`. -/
structure Command where
  verb : Verb
  path : List Bytes
  forceQuote : List Bool
  group : List Bool
  annotationText : Bytes
  singleBracketFrom : Option ℕ

/-- `nodeKeyBracketMask`: the brackets of a container. -/
def nodeKeyBracketMask (n : NodeHead) : Mask :=
  if n.isLeaf || maskLen n.keysBracketed ≠ n.keys.length then none else n.keysBracketed

/-- `keySpan`. -/
def keySpan (n : NodeHead) (first last : ℕ) : NodeHead :=
  let span (mask : Mask) : Mask :=
    if maskLen mask = n.keys.length then mask.map fun m => (m.take last).drop first else none
  let leaf : NodeHead := { keys := (n.keys.take last).drop first, isLeaf := true }
  (leaf.setKeysQuoted (span n.keysQuoted)).setKeysBracketed (span n.keysBracketed) (some n.bracketedClosed)

/-- `formatSetLineWalker`. -/
structure Walker where
  path : List Bytes
  pathQuote : List Bool
  pathGroup : List Bool
  preserveLeafBrackets : Bool

namespace Walker

/-- The buffers cut back to a length. -/
def truncate (w : Walker) (len : ℕ) : Walker :=
  { w with path := w.path.take len, pathQuote := w.pathQuote.take len, pathGroup := w.pathGroup.take len }

def appendNodeKeys (w : Walker) (n : NodeHead) : Walker :=
  let bracket :=
    if w.preserveLeafBrackets && n.isLeaf && maskLen n.keysBracketed = n.keys.length then n.keysBracketed
    else nodeKeyBracketMask n
  let indices := List.range n.keys.length
  { w with
    path := w.path ++ n.keys
    pathQuote := w.pathQuote ++ indices.map n.keyQuoted
    pathGroup := w.pathGroup ++ indices.map fun i => (bracket.getD []).getD i false }

def command (w : Walker) (verb : Verb) (annotationText : Bytes) (singleBracketFrom : Option ℕ) : Command :=
  { verb, path := w.path, forceQuote := w.pathQuote, group := w.pathGroup, annotationText, singleBracketFrom }

end Walker

/-- `policyStatementTermPath12598`. -/
def policyStatementTermPath (path : List Bytes) : Bool :=
  (List.range (path.length - 3)).any fun i =>
    path.getD i [] == bytes "policy-options" && path.getD (i + 1) [] == bytes "policy-statement"
      && path.getD (i + 2) [] != [] && path.getD (i + 3) [] == bytes "term"

section

variable {σ : Type} (emit : Command → σ → σ)

/-- The `deactivate` commands for the names below a bare `term`. -/
def deactivateChildren (len : ℕ) (children : List Node) (st : Walker × σ) : Walker × σ :=
  children.foldl (fun (w, s) child =>
    if child.keys = [] then (w, s)
    else
      let w := w.appendNodeKeys (keySpan child.toNodeHead 0 1)
      let s := emit (w.command .deactivate [] none) s
      (w.truncate len, s)) st

/-- The loop body of `walk`, over the walk of the children. -/
def walkNode (below : Walker → List Node → σ → Walker × σ) (baseLen : ℕ) (st : Walker × σ) (n : Node) : Walker × σ :=
  let w := (st.1.truncate baseLen).appendNodeKeys n.toNodeHead
  let singleBracketFrom := if w.preserveLeafBrackets && n.isLeaf then some (w.path.length - n.keys.length) else none
  let (w, s) :=
    if n.isLeaf || n.children.isEmpty then (w, emit (w.command .set [] singleBracketFrom) st.2)
    else below w n.children st.2
  let s := if n.annotationText ≠ [] then emit (w.command .annotate n.annotationText singleBracketFrom) s else s
  if !n.inactive then (w, s)
  else if w.preserveLeafBrackets && policyStatementTermPath w.path && n.keys = [bytes "term"] && !n.children.isEmpty then
    deactivateChildren emit (baseLen + n.keys.length) n.children (w, s)
  else (w, emit (w.command .deactivate [] singleBracketFrom) s)

/-- `walk`, with the number of levels it may go down. -/
def walk : ℕ → Walker → List Node → σ → Walker × σ
  | 0, w, _, s => (w, s)
  | levels + 1, w, nodes, s =>
    let (w', s) := (canonicalOrder (fun n : Node => n.keys) nodes).foldl
      (walkNode emit (walk levels) w.path.length) (w, s)
    (w'.truncate w.path.length, s)

end

mutual

/-- The levels of a node and of what is below it. -/
def Node.levels : Node → ℕ
  | ⟨_, children⟩ => levels children + 1

/-- The levels of a sibling list. -/
def levels : List Node → ℕ
  | [] => 0
  | n :: rest => max (Node.levels n) (levels rest)

end

/-- `newFormatSetLineWalker` without a prefix, run over a tree. -/
def walkTree {σ : Type} (emit : Command → σ → σ) (preserveLeafBrackets : Bool) (tree : List Node) (s : σ) : σ :=
  (walk emit (levels tree + 1) ⟨[], [], [], preserveLeafBrackets⟩ tree s).2

/-! ## The text -/

/-- A key as a string literal where the author's quote decides something, else as it must be. -/
def keyProv (keys : List Bytes) (keeps : Bool) (i : ℕ) : Bytes :=
  if keeps then quoted (keys.getD i []) else quoteKey (keys.getD i [])

/-- `joinQuotedKeysProv`. -/
def joinQuotedKeysProv (keys : List Bytes) (forceQuote : List Bool) : Bytes :=
  join (bytes " ") ((List.range keys.length).map fun i =>
    keyProv keys (decide (i + 1 < keys.length) && forceQuote.getD i false) i)

/-- `quoteKeyProv`. -/
def quoteKeyProv (keys : List Bytes) (forceQuote : List Bool) (i : ℕ) : Bytes :=
  keyProv keys (forceQuote.getD i false
    && (decide (i + 1 < keys.length) || policyTermInlineKeywords.contains (keys.getD i []))) i

/-- `quoteKeyProvForLoadMerge`. -/
def quoteKeyProvForLoadMerge (keys : List Bytes) (forceQuote : List Bool) (i : ℕ) (preserveFinalQuote : Bool) : Bytes :=
  keyProv keys ((decide (i + 1 < keys.length) || preserveFinalQuote) && forceQuote.getD i false) i

/-- How many keys from `i` on are grouped. -/
def runLength (group : List Bool) (i : ℕ) : ℕ := ((group.drop i).takeWhile id).length

/-- The loop of `joinKeysProvGroupedFrom`, with the number of keys as fuel. -/
def joinLoop (keys : List Bytes) (forceQuote group : List Bool) (singleBracketFrom : Option ℕ) :
    ℕ → ℕ → List Bytes → List Bytes
  | 0, _, parts => parts
  | fuel + 1, i, parts =>
    if keys.length ≤ i then parts
    else if !group.getD i false then
      joinLoop keys forceQuote group singleBracketFrom fuel (i + 1) (parts ++ [quoteKeyProv keys forceQuote i])
    else
      let run := runLength group i
      if decide (run < 2) && singleBracketFrom.all (i < ·) then
        joinLoop keys forceQuote group singleBracketFrom fuel (i + 1) (parts ++ [quoteKeyProv keys forceQuote i])
      else
        let keysOfRun := (List.range run).map fun j =>
          quoteKeyProvForLoadMerge keys forceQuote (i + j) (singleBracketFrom.any (· ≤ i + j))
        joinLoop keys forceQuote group singleBracketFrom fuel (i + run)
          (parts ++ bytes "[" :: (keysOfRun ++ [bytes "]"]))

/-- `joinKeysProvGroupedFrom`. -/
def joinKeysProvGroupedFrom (keys : List Bytes) (forceQuote group : List Bool) (singleBracketFrom : Option ℕ) : Bytes :=
  if group.length ≠ keys.length then joinQuotedKeysProv keys forceQuote
  else join (bytes " ") (joinLoop keys forceQuote group singleBracketFrom keys.length 0 [])

/-- The `emit` of `formatSetNodesMode`. -/
def emitText (c : Command) (b : Bytes) : Bytes :=
  let pathText := joinKeysProvGroupedFrom c.path c.forceQuote c.group c.singleBracketFrom
  match c.verb with
  | .annotate => b ++ (bytes "annotate " ++ pathText ++ bytes " " ++ quoted c.annotationText ++ bytes "\n")
  | verb => b ++ (verb.text ++ bytes " " ++ pathText ++ bytes "\n")

/-- `FormatSet`. -/
def formatSet (tree : List Node) : Bytes := walkTree emitText false tree []

/-- `FormatSetForLoadMerge`. -/
def formatSetForLoadMerge (tree : List Node) : Bytes := walkTree emitText true tree []

/-! ## The lines -/

/-- `appendFormatSetEscaped`. -/
def appendFormatSetEscaped (dst value : Bytes) : Bytes :=
  value.foldl (fun dst c =>
    if c = '\\'.toUInt8 || c = '"'.toUInt8 then dst ++ ['\\'.toUInt8, c]
    else if c = '\n'.toUInt8 then dst ++ ['\\'.toUInt8, 'n'.toUInt8]
    else dst ++ [c]) dst

/-- A string literal at the end of a buffer. -/
def appendQuoted (dst value : Bytes) : Bytes := appendFormatSetEscaped (dst ++ ['"'.toUInt8]) value ++ ['"'.toUInt8]

/-- `appendFormatSetQuotedKey`. -/
def appendFormatSetQuotedKey (dst key : Bytes) : Bytes := if bareKeySafe key then dst ++ key else appendQuoted dst key

/-- `appendQuoteKeyProv`. -/
def appendQuoteKeyProv (dst : Bytes) (keys : List Bytes) (forceQuote : List Bool) (i : ℕ) : Bytes :=
  if forceQuote.getD i false && (decide (i + 1 < keys.length) || policyTermInlineKeywords.contains (keys.getD i [])) then
    appendQuoted dst (keys.getD i [])
  else appendFormatSetQuotedKey dst (keys.getD i [])

/-- `appendQuoteKeyProvGrouped`. -/
def appendQuoteKeyProvGrouped (dst : Bytes) (keys : List Bytes) (forceQuote : List Bool) (i : ℕ) : Bytes :=
  if forceQuote.getD i false && decide (i + 1 < keys.length) then appendQuoted dst (keys.getD i [])
  else appendFormatSetQuotedKey dst (keys.getD i [])

/-- A line and whether nothing of its keys is in it yet. -/
abbrev LineState := Bytes × Bool

/-- The blank in front of every token but the first. -/
def LineState.blank (st : LineState) : Bytes := if st.2 then st.1 else st.1 ++ bytes " "

/-- `appendFormatSetKeyToken`. -/
def appendFormatSetKeyToken (keys : List Bytes) (forceQuote : List Bool) (st : LineState) (i : ℕ) : LineState :=
  (appendQuoteKeyProv st.blank keys forceQuote i, false)

/-- `appendFormatSetGroupedKeyToken`. -/
def appendFormatSetGroupedKeyToken (keys : List Bytes) (forceQuote : List Bool) (st : LineState) (i : ℕ) : LineState :=
  (appendQuoteKeyProvGrouped st.blank keys forceQuote i, false)

/-- `appendFormatSetToken`. -/
def appendFormatSetToken (st : LineState) (token : Bytes) : LineState := (st.blank ++ token, false)

/-- The loop of `appendFormatSetKeys`, with the number of keys as fuel. -/
def appendKeysLoop (keys : List Bytes) (forceQuote group : List Bool) : ℕ → ℕ → LineState → LineState
  | 0, _, st => st
  | fuel + 1, i, st =>
    if keys.length ≤ i then st
    else if !group.getD i false then
      appendKeysLoop keys forceQuote group fuel (i + 1) (appendFormatSetKeyToken keys forceQuote st i)
    else
      let run := runLength group i
      if run < 2 then
        appendKeysLoop keys forceQuote group fuel (i + 1) (appendFormatSetKeyToken keys forceQuote st i)
      else
        let st := appendFormatSetToken st (bytes "[")
        let st := (List.range run).foldl (fun st j => appendFormatSetGroupedKeyToken keys forceQuote st (i + j)) st
        let st := appendFormatSetToken st (bytes "]")
        appendKeysLoop keys forceQuote group fuel (i + run) st

/-- `appendFormatSetKeys`. -/
def appendFormatSetKeys (line : Bytes) (keys : List Bytes) (forceQuote group : List Bool) : Bytes :=
  if group.length ≠ keys.length then
    ((List.range keys.length).foldl (appendFormatSetKeyToken keys forceQuote) (line, true)).1
  else (appendKeysLoop keys forceQuote group keys.length 0 (line, true)).1

/-- `appendFormatSetLine`. -/
def appendFormatSetLine (line : Bytes) (c : Command) : Bytes :=
  let line := appendFormatSetKeys (line ++ c.verb.text ++ bytes " ") c.path c.forceQuote c.group
  let line := if c.annotationText ≠ [] then appendQuoted (line ++ bytes " ") c.annotationText else line
  trimRight line

/-- The lines so far and the line buffer. -/
structure LinesState where
  lines : List Bytes
  lineBuffer : Bytes

/-- The `emit` of `FormatSetLines`: an old line with the same bytes is taken again. -/
def emitLine (reuse : List Bytes) (c : Command) (st : LinesState) : LinesState :=
  let lineBuffer := appendFormatSetLine (st.lineBuffer.take 0) c
  match reuse[st.lines.length]? with
  | some previous =>
    if lineBuffer = previous then { lines := st.lines ++ [previous], lineBuffer }
    else { lines := st.lines ++ [lineBuffer], lineBuffer }
  | none => { lines := st.lines ++ [lineBuffer], lineBuffer }

/-- `FormatSetLines`. -/
def formatSetLines (tree : List Node) (reuse : List Bytes) : List Bytes := (walkTree (emitLine reuse) false tree ⟨[], []⟩).lines

/-! ## The levels of a walk -/

theorem levels_le_of_mem {nodes : List Node} {n : Node} (h : n ∈ nodes) : levels n.children + 1 ≤ levels nodes := by
  induction nodes with
  | nil => cases h
  | cons m rest ih =>
    rw [levels]
    rcases List.mem_cons.mp h with rfl | h
    · obtain ⟨head, children⟩ := n
      rw [Node.levels]
      exact Nat.le_max_left _ _
    · exact Nat.le_trans (ih h) (Nat.le_max_right _ _)

/-- As many levels as the tree has are enough: more give the same walk. -/
theorem walk_levels {σ : Type} (emit : Command → σ → σ) {nodes : List Node} {a b : ℕ} (ha : levels nodes < a)
    (hb : levels nodes < b) (w : Walker) (s : σ) : walk emit a w nodes s = walk emit b w nodes s := by
  induction a generalizing nodes b w s with
  | zero => exact absurd ha (Nat.not_lt_zero _)
  | succ a ih =>
    cases b with
    | zero => exact absurd hb (Nat.not_lt_zero _)
    | succ b =>
      -- the loops agree on every sibling, since what is below it has fewer levels
      have hloop : ∀ (ns : List Node) (st : Walker × σ), (∀ n ∈ ns, n ∈ nodes) →
          ns.foldl (walkNode emit (walk emit a) w.path.length) st = ns.foldl (walkNode emit (walk emit b) w.path.length) st := by
        intro ns
        induction ns with
        | nil => exact fun st _ => rfl
        | cons n ns ihns =>
          intro st hmem
          have hlevels := levels_le_of_mem (hmem n List.mem_cons_self)
          have hbelow : ∀ w s, walk emit a w n.children s = walk emit b w n.children s :=
            fun w s => ih (by omega) (by omega) w s
          have hnode : walkNode emit (walk emit a) w.path.length st n = walkNode emit (walk emit b) w.path.length st n := by
            simp only [walkNode, hbelow]
          rw [List.foldl_cons, List.foldl_cons, hnode]
          exact ihns _ fun n hn => hmem n (List.mem_cons_of_mem _ hn)
      rw [walk, walk, hloop _ _ fun n hn => canonicalOrder_mem hn]

/-! ## The keys of a command -/

theorem appendFormatSetEscaped_eq (dst value : Bytes) : appendFormatSetEscaped dst value = dst ++ keyEscaper value := by
  induction value generalizing dst with
  | nil => exact (List.append_nil dst).symm
  | cons c value ih =>
    have hcons : keyEscaper (c :: value) = escapeByte c ++ keyEscaper value := rfl
    simp only [appendFormatSetEscaped] at ih ⊢
    rw [List.foldl_cons, ih, hcons, ← List.append_assoc]
    congr 1
    rw [escapeByte]
    by_cases hslash : c = '\\'.toUInt8
    · simp [hslash]
    · by_cases hquote : c = '"'.toUInt8
      · simp [hquote]
      · simp only [hslash, hquote, decide_false, Bool.or_self, Bool.false_eq_true, if_false]
        split_ifs <;> rfl

theorem appendQuoted_eq (dst value : Bytes) : appendQuoted dst value = dst ++ quoted value := by
  rw [appendQuoted, appendFormatSetEscaped_eq, quoted, List.append_assoc, List.append_assoc]
  rfl

theorem appendFormatSetQuotedKey_eq (dst key : Bytes) : appendFormatSetQuotedKey dst key = dst ++ quoteKey key := by
  rw [appendFormatSetQuotedKey, quoteKey, appendQuoted_eq]
  split_ifs <;> rfl

theorem appendQuoteKeyProv_eq (dst : Bytes) (keys : List Bytes) (forceQuote : List Bool) (i : ℕ) :
    appendQuoteKeyProv dst keys forceQuote i = dst ++ quoteKeyProv keys forceQuote i := by
  rw [appendQuoteKeyProv, quoteKeyProv, keyProv, appendQuoted_eq, appendFormatSetQuotedKey_eq]
  split_ifs <;> rfl

theorem appendQuoteKeyProvGrouped_eq (dst : Bytes) (keys : List Bytes) (forceQuote : List Bool) (i : ℕ) :
    appendQuoteKeyProvGrouped dst keys forceQuote i = dst ++ quoteKeyProvForLoadMerge keys forceQuote i false := by
  rw [appendQuoteKeyProvGrouped, quoteKeyProvForLoadMerge, keyProv, appendQuoted_eq, appendFormatSetQuotedKey_eq,
    Bool.or_false, Bool.and_comm]
  split_ifs <;> rfl

theorem join_concat (sep : Bytes) (ws : List Bytes) (w : Bytes) :
    join sep (ws ++ [w]) = if ws.isEmpty then w else join sep ws ++ sep ++ w := by
  induction ws with
  | nil => rfl
  | cons v ws ih =>
    cases ws with
    | nil => rfl
    | cons u ws =>
      have hjoin : join sep (v :: u :: ws ++ [w]) = v ++ sep ++ join sep (u :: ws ++ [w]) := rfl
      have hjoin' : join sep (v :: u :: ws) = v ++ sep ++ join sep (u :: ws) := rfl
      rw [hjoin, ih, hjoin']
      simp only [List.isEmpty_cons, Bool.false_eq_true, if_false, List.append_assoc]

/-- The line buffer has a base and the parts so far, joined. -/
structure Holds (base : Bytes) (parts : List Bytes) (st : LineState) : Prop where
  line : st.1 = base ++ join (bytes " ") parts
  first : st.2 = parts.isEmpty

theorem Holds.token {base : Bytes} {parts : List Bytes} {st : LineState} (h : Holds base parts st) (t : Bytes) :
    Holds base (parts ++ [t]) (st.blank ++ t, false) := by
  refine ⟨?_, by simp⟩
  rw [join_concat, LineState.blank, h.first, h.line]
  cases parts with
  | nil => simp [join]
  | cons p parts => simp only [List.isEmpty_cons, Bool.false_eq_true, if_false, List.append_assoc]

theorem Holds.groupedKeys {base : Bytes} {parts : List Bytes} {st : LineState} (h : Holds base parts st) (keys : List Bytes)
    (forceQuote : List Bool) (i : ℕ) (js : List ℕ) :
    Holds base (parts ++ js.map fun j => quoteKeyProvForLoadMerge keys forceQuote (i + j) false)
      (js.foldl (fun st j => appendFormatSetGroupedKeyToken keys forceQuote st (i + j)) st) := by
  induction js generalizing parts st with
  | nil => rwa [List.map_nil, List.append_nil]
  | cons j js ih =>
    rw [List.map_cons, List.append_cons, List.foldl_cons]
    apply ih
    rw [appendFormatSetGroupedKeyToken, appendQuoteKeyProvGrouped_eq]
    exact h.token _

/-- The two loops go over the keys in lockstep. -/
theorem appendKeysLoop_holds (keys : List Bytes) (forceQuote group : List Bool) {base : Bytes} (fuel i : ℕ)
    {parts : List Bytes} {st : LineState} (h : Holds base parts st) :
    Holds base (joinLoop keys forceQuote group none fuel i parts) (appendKeysLoop keys forceQuote group fuel i st) := by
  induction fuel generalizing i parts st with
  | zero => exact h
  | succ fuel ih =>
    have hkey : Holds base (parts ++ [quoteKeyProv keys forceQuote i]) (appendFormatSetKeyToken keys forceQuote st i) := by
      rw [appendFormatSetKeyToken, appendQuoteKeyProv_eq]
      exact h.token _
    rw [joinLoop, appendKeysLoop]
    simp only [Option.all_none, Option.any_none, Bool.and_true, decide_eq_true_eq]
    split_ifs with hend hbare hshort
    · exact h
    · exact ih (i + 1) hkey
    · exact ih (i + 1) hkey
    · apply ih
      have hopen := h.token (bytes "[")
      have hrun := hopen.groupedKeys keys forceQuote i (List.range (runLength group i))
      have hclose := hrun.token (bytes "]")
      rw [List.append_assoc, List.append_assoc, List.singleton_append] at hclose
      exact hclose

theorem appendFormatSetKeys_eq {keys : List Bytes} {group : List Bool} (h : group.length = keys.length) (line : Bytes)
    (forceQuote : List Bool) :
    appendFormatSetKeys line keys forceQuote group = line ++ joinKeysProvGroupedFrom keys forceQuote group none := by
  have hstart : Holds line [] (line, true) := ⟨(List.append_nil line).symm, rfl⟩
  rw [appendFormatSetKeys, joinKeysProvGroupedFrom, if_neg (not_not.mpr h), if_neg (not_not.mpr h)]
  exact (appendKeysLoop_holds keys forceQuote group keys.length 0 hstart).line

/-! ## The commands of a walk -/

/-- What every command of `FormatSet` has: masks as long as its path, no brackets around single
keys, and a text exactly where it is an annotation. -/
structure Command.Plain (c : Command) : Prop where
  aligned : c.group.length = c.path.length
  brackets : c.singleBracketFrom = none
  text : c.verb = .annotate ↔ c.annotationText ≠ []

/-- The buffers of a walker that leaves the brackets of leaves out. -/
structure Walker.Plain (w : Walker) : Prop where
  group : w.pathGroup.length = w.path.length
  display : w.preserveLeafBrackets = false

theorem Walker.Plain.truncate {w : Walker} (h : w.Plain) (len : ℕ) : (w.truncate len).Plain := by
  refine ⟨?_, h.display⟩
  rw [Walker.truncate]
  dsimp only
  rw [List.length_take, List.length_take, h.group]

theorem Walker.Plain.appendNodeKeys {w : Walker} (h : w.Plain) (n : NodeHead) : (w.appendNodeKeys n).Plain := by
  refine ⟨?_, h.display⟩
  rw [Walker.appendNodeKeys]
  dsimp only
  rw [List.length_append, List.length_append, List.length_map, List.length_range, h.group]

/-- A piece of a walk calls `emit` with plain commands, the same whatever `emit` does. -/
def Emits (piece : ∀ {σ : Type}, (Command → σ → σ) → σ → Walker × σ) : Prop :=
  ∃ (w : Walker) (commands : List Command), w.Plain ∧ (∀ c ∈ commands, c.Plain)
    ∧ ∀ (σ : Type) (emit : Command → σ → σ) (s : σ), piece emit s = (w, commands.foldl (fun s c => emit c s) s)

theorem Walker.Plain.command {w : Walker} (h : w.Plain) {verb : Verb} {annotationText : Bytes}
    (htext : verb = .annotate ↔ annotationText ≠ []) : (w.command verb annotationText none).Plain := ⟨h.group, rfl, htext⟩

theorem walkNode_emits (below : ∀ {σ : Type}, (Command → σ → σ) → Walker → List Node → σ → Walker × σ) {w : Walker}
    (hw : w.Plain) (n : Node) (hbelow : ∀ w, w.Plain → Emits fun emit => below emit w n.children) (baseLen : ℕ) :
    Emits fun emit s => walkNode emit (below emit) baseLen (w, s) n := by
  have hn := (hw.truncate baseLen).appendNodeKeys n.toNodeHead
  -- the `set` command, or those of the children
  have hset : Emits fun emit s =>
      if n.isLeaf || n.children.isEmpty then
        ((w.truncate baseLen).appendNodeKeys n.toNodeHead,
          emit (((w.truncate baseLen).appendNodeKeys n.toNodeHead).command .set [] none) s)
      else below emit ((w.truncate baseLen).appendNodeKeys n.toNodeHead) n.children s := by
    split
    · refine ⟨_, [_], hn, fun c hc => ?_, fun σ emit s => rfl⟩
      rw [List.mem_singleton.mp hc]
      exact hn.command (by decide)
    · exact hbelow _ hn
  obtain ⟨w', commands, hw', hcommands, hset⟩ := hset
  let annotateLines := if n.annotationText ≠ [] then [w'.command .annotate n.annotationText none] else []
  let deactivation := if n.inactive then [w'.command .deactivate [] none] else []
  refine ⟨w', commands ++ annotateLines ++ deactivation, hw', fun c hc => ?_, fun σ emit s => ?_⟩
  · rcases List.mem_append.mp hc with hc | hc
    · rcases List.mem_append.mp hc with hc | hc
      · exact hcommands c hc
      · dsimp only [annotateLines] at hc
        split_ifs at hc with hne
        · rw [List.mem_singleton.mp hc]
          exact hw'.command ⟨fun _ => hne, fun _ => rfl⟩
        · cases hc
    · dsimp only [deactivation] at hc
      split_ifs at hc
      · rw [List.mem_singleton.mp hc]
        exact hw'.command (by decide)
      · cases hc
  · have hdisplay : ((w.truncate baseLen).appendNodeKeys n.toNodeHead).preserveLeafBrackets = false := hn.display
    have hrun := hset σ emit s
    dsimp only
    rw [walkNode]
    simp only [hdisplay, Bool.false_and, Bool.false_eq_true, if_false, hrun, hw'.display, List.foldl_append]
    dsimp only [annotateLines, deactivation]
    cases n.inactive <;> split_ifs <;> simp_all

theorem foldl_emits (step : ∀ {σ : Type}, (Command → σ → σ) → Walker × σ → Node → Walker × σ) (nodes : List Node)
    (hstep : ∀ n ∈ nodes, ∀ w, w.Plain → Emits fun emit s => step emit (w, s) n) {w : Walker} (hw : w.Plain) :
    Emits fun emit s => nodes.foldl (step emit) (w, s) := by
  induction nodes generalizing w with
  | nil => exact ⟨w, [], hw, fun c hc => (List.not_mem_nil hc).elim, fun σ emit s => rfl⟩
  | cons n nodes ih =>
    obtain ⟨w', commands, hw', hcommands, hrun⟩ := hstep n List.mem_cons_self w hw
    obtain ⟨w'', commands', hw'', hcommands', hrun'⟩ := ih (fun n hn => hstep n (List.mem_cons_of_mem _ hn)) hw'
    refine ⟨w'', commands ++ commands', hw'', fun c hc => ?_, fun σ emit s => ?_⟩
    · exact (List.mem_append.mp hc).elim (hcommands c) (hcommands' c)
    · dsimp only at hrun hrun' ⊢
      rw [List.foldl_cons, hrun, hrun', List.foldl_append]

theorem walk_emits (levels : ℕ) (nodes : List Node) {w : Walker} (hw : w.Plain) :
    Emits fun emit => walk emit levels w nodes := by
  induction levels generalizing nodes w with
  | zero => exact ⟨w, [], hw, fun c hc => (List.not_mem_nil hc).elim, fun σ emit s => rfl⟩
  | succ levels ih =>
    obtain ⟨w', commands, hw', hcommands, hrun⟩ := foldl_emits
      (fun emit => walkNode emit (walk emit levels) w.path.length) (canonicalOrder (fun n : Node => n.keys) nodes)
      (fun n _ w' hw' => walkNode_emits (fun emit => walk emit levels) hw' n (fun w hw => ih n.children hw) _) hw
    refine ⟨_, commands, hw'.truncate w.path.length, hcommands, fun σ emit s => ?_⟩
    have hfold := hrun σ emit s
    dsimp only at hfold ⊢
    rw [walk, hfold]

/-! ## One command, one line -/

/-- The line of a command before it is trimmed. -/
def commandText (c : Command) : Bytes :=
  c.verb.text ++ bytes " " ++ joinKeysProvGroupedFrom c.path c.forceQuote c.group none
    ++ if c.verb = .annotate then bytes " " ++ quoted c.annotationText else []

theorem emitText_eq {c : Command} (h : c.Plain) (b : Bytes) : emitText c b = b ++ (commandText c ++ ['\n'.toUInt8]) := by
  have hnewline : bytes "\n" = ['\n'.toUInt8] := by decide
  rw [emitText, commandText, h.brackets, hnewline]
  cases hverb : c.verb with
  | annotate =>
    have hword : bytes "annotate " = Verb.annotate.text ++ bytes " " := by decide
    dsimp only
    rw [hword, if_pos rfl]
    simp only [List.append_assoc]
  | set => simp
  | deactivate => simp

theorem appendFormatSetLine_eq {c : Command} (h : c.Plain) : appendFormatSetLine [] c = trimRight (commandText c) := by
  rw [appendFormatSetLine, commandText, appendFormatSetKeys_eq h.aligned]
  by_cases hverb : c.verb = .annotate
  · rw [if_pos hverb, if_pos (h.text.mp hverb), appendQuoted_eq]
    simp only [List.nil_append, List.append_assoc]
  · have hempty : c.annotationText = [] := not_not.mp fun hne => hverb (h.text.mpr hne)
    rw [if_neg hverb, hempty, if_neg (not_not.mpr rfl)]
    simp only [List.nil_append, List.append_nil]

/-- An old line is taken only where it has the same bytes. -/
theorem emitLine_lines (reuse : List Bytes) (c : Command) (st : LinesState) :
    (emitLine reuse c st).lines = st.lines ++ [appendFormatSetLine [] c] := by
  rw [emitLine, List.take_zero]
  split
  · split_ifs with heq
    · rw [heq]
    · rfl
  · rfl

/-! ## Lines without a newline -/

def NoNewline (s : Bytes) : Prop := '\n'.toUInt8 ∉ s

theorem NoNewline.append {s t : Bytes} (hs : NoNewline s) (ht : NoNewline t) : NoNewline (s ++ t) := by
  rw [NoNewline, List.mem_append]
  exact not_or.mpr ⟨hs, ht⟩

theorem noNewline_quoted (s : Bytes) : NoNewline (quoted s) := by
  have hescape : ∀ c, '\n'.toUInt8 ∉ escapeByte c := by
    intro c hmem
    rw [escapeByte] at hmem
    split_ifs at hmem with h1 h2 h3
    · exact absurd hmem (by decide)
    · exact absurd hmem (by decide)
    · exact absurd hmem (by decide)
    · exact h3 (List.mem_singleton.mp hmem).symm
  have hbody : NoNewline (keyEscaper s) := by
    intro hmem
    obtain ⟨c, -, hc⟩ := List.mem_flatMap.mp hmem
    exact hescape c hc
  have hquotes : NoNewline ['"'.toUInt8] := by
    rw [NoNewline]
    decide
  exact hquotes.append (hbody.append hquotes)

theorem noNewline_quoteKey (s : Bytes) : NoNewline (quoteKey s) := by
  rw [quoteKey]
  split_ifs with hsafe
  · intro hmem
    simp only [bareKeySafe, Bool.and_eq_true, List.all_eq_true] at hsafe
    exact absurd (hsafe.1.1.2 _ hmem) (by decide)
  · exact noNewline_quoted s

theorem noNewline_keyProv (keys : List Bytes) (keeps : Bool) (i : ℕ) : NoNewline (keyProv keys keeps i) := by
  rw [keyProv]
  split_ifs
  · exact noNewline_quoted _
  · exact noNewline_quoteKey _

theorem noNewline_join {parts : List Bytes} (h : ∀ p ∈ parts, NoNewline p) : NoNewline (join (bytes " ") parts) := by
  have hblank : NoNewline (bytes " ") := by
    rw [NoNewline]
    decide
  induction parts using List.reverseRecOn with
  | nil => exact List.not_mem_nil
  | append_singleton parts p ih =>
    have hp := h p (by simp)
    rw [join_concat]
    split_ifs
    · exact hp
    · exact ((ih fun q hq => h q (List.mem_append_left _ hq)).append hblank).append hp

theorem noNewline_joinLoop (keys : List Bytes) (forceQuote group : List Bool) (singleBracketFrom : Option ℕ) (fuel i : ℕ)
    {parts : List Bytes} (h : ∀ p ∈ parts, NoNewline p) :
    ∀ p ∈ joinLoop keys forceQuote group singleBracketFrom fuel i parts, NoNewline p := by
  induction fuel generalizing i parts with
  | zero => exact h
  | succ fuel ih =>
    have hkey : ∀ p ∈ parts ++ [quoteKeyProv keys forceQuote i], NoNewline p := by
      intro p hp
      rcases List.mem_append.mp hp with hp | hp
      · exact h p hp
      · rw [List.mem_singleton.mp hp]
        exact noNewline_keyProv _ _ _
    rw [joinLoop]
    dsimp only
    split_ifs
    · exact h
    · exact ih (i + 1) hkey
    · exact ih (i + 1) hkey
    · apply ih
      intro p hp
      rcases List.mem_append.mp hp with hp | hp
      · exact h p hp
      · rcases List.mem_cons.mp hp with rfl | hp
        · rw [NoNewline]
          decide
        · rcases List.mem_append.mp hp with hp | hp
          · obtain ⟨j, -, rfl⟩ := List.mem_map.mp hp
            exact noNewline_keyProv _ _ _
          · rw [List.mem_singleton.mp hp, NoNewline]
            decide

theorem noNewline_commandText (c : Command) : NoNewline (commandText c) := by
  have hverb : NoNewline c.verb.text := by
    rw [NoNewline]
    cases c.verb <;> decide
  have hblank : NoNewline (bytes " ") := by
    rw [NoNewline]
    decide
  have hkeys : NoNewline (joinKeysProvGroupedFrom c.path c.forceQuote c.group none) := by
    rw [joinKeysProvGroupedFrom]
    split_ifs
    · apply noNewline_join
      intro p hp
      obtain ⟨i, -, rfl⟩ := List.mem_map.mp hp
      exact noNewline_keyProv _ _ _
    · apply noNewline_join
      exact noNewline_joinLoop _ _ _ _ _ _ fun p hp => (List.not_mem_nil hp).elim
  rw [commandText]
  refine ((hverb.append hblank).append hkeys).append ?_
  split_ifs
  · exact hblank.append (noNewline_quoted _)
  · exact List.not_mem_nil

/-! ## Trimmed lines -/

/-- A byte that starts no white-space rune. -/
def Solid (c : UInt8) : Prop := ∀ t, spaceLen (c :: t) = 0

theorem solid_ascii {c : UInt8} (hlow : 32 < c) (hhigh : c < 0x80) : Solid c := by
  have hC2 : c ≠ 0xC2 := by rintro rfl; exact absurd hhigh (by decide)
  have hE1 : c ≠ 0xE1 := by rintro rfl; exact absurd hhigh (by decide)
  have hE2 : c ≠ 0xE2 := by rintro rfl; exact absurd hhigh (by decide)
  have hE3 : c ≠ 0xE3 := by rintro rfl; exact absurd hhigh (by decide)
  have hascii : ¬ ((9 ≤ c ∧ c ≤ 13) ∨ c = 32) := by
    rintro (⟨-, hle⟩ | rfl)
    · exact absurd (UInt8.lt_of_lt_of_le hlow hle) (by decide)
    · exact absurd hlow (by decide)
  intro t
  match t with
  | [] => simp only [spaceLen, if_neg hascii]
  | [c'] => simp only [spaceLen, if_neg hascii, hC2, false_and, if_false]
  | c' :: c'' :: t => simp only [spaceLen, if_neg hascii, hC2, hE1, hE2, hE3, false_and, if_false]

/-- Trimming the end of a text keeps a first byte that is no white space. -/
theorem trimRightFuel_cons {c : UInt8} (hc : Solid c) (fuel : ℕ) (s : Bytes) : ∃ s', trimRightFuel fuel (c :: s) = c :: s' := by
  induction fuel generalizing s with
  | zero => exact ⟨s, rfl⟩
  | succ fuel ih =>
    rw [trimRightFuel]
    split_ifs with hzero
    · exact ⟨s, rfl⟩
    · -- the rune at the end does not reach the first byte
      have hlen : lastSpaceLen (c :: s) ≤ s.length := by
        by_contra hlong
        have hwhole : ∀ k, s.length < k → spaceLen ((c :: s).drop ((c :: s).length - k)) = 0 := by
          intro k hk
          have hdrop : (c :: s).length - k = 0 := by
            rw [List.length_cons]
            omega
          rw [hdrop, List.drop_zero]
          exact hc s
        rw [lastSpaceLen] at hzero hlong
        split_ifs at hzero hlong with h1 h2 h3
        · rw [hwhole 1 (by omega)] at h1
          cases h1
        · rw [hwhole 2 (by omega)] at h2
          cases h2
        · rw [hwhole 3 (by omega)] at h3
          cases h3
        · exact hzero rfl
      have htake : (c :: s).take ((c :: s).length - lastSpaceLen (c :: s)) = c :: s.take (s.length - lastSpaceLen (c :: s)) := by
        have hsub : (c :: s).length - lastSpaceLen (c :: s) = s.length - lastSpaceLen (c :: s) + 1 := by
          rw [List.length_cons]
          omega
        rw [hsub, List.take_succ_cons]
      rw [htake]
      exact ih _

theorem trimSpace_cons {c : UInt8} (hc : Solid c) (s : Bytes) :
    trimSpace (c :: s) = trimRight (c :: s) ∧ trimRight (c :: s) ≠ [] := by
  obtain ⟨s', hs'⟩ := trimRightFuel_cons hc (c :: s).length s
  refine ⟨?_, ?_⟩
  · rw [trimSpace, List.length_cons, trimLeftFuel, if_pos (hc s)]
  · rw [trimRight, hs']
    exact List.cons_ne_nil _ _

/-- A command starts with a letter. -/
theorem commandText_cons (c : Command) : ∃ b s, commandText c = b :: s ∧ Solid b := by
  rw [commandText]
  cases c.verb with
  | set => exact ⟨'s'.toUInt8, _, rfl, solid_ascii (by decide) (by decide)⟩
  | annotate => exact ⟨'a'.toUInt8, _, rfl, solid_ascii (by decide) (by decide)⟩
  | deactivate => exact ⟨'d'.toUInt8, _, rfl, solid_ascii (by decide) (by decide)⟩

theorem splitLines_cons {line : Bytes} (h : NoNewline line) (hsolid : ∃ b s, line = b :: s ∧ Solid b) (rest : Bytes) :
    splitLines (line ++ '\n'.toUInt8 :: rest) = trimRight line :: splitLines rest := by
  obtain ⟨b, s, rfl, hb⟩ := hsolid
  obtain ⟨htrim, hne⟩ := trimSpace_cons hb s
  have hsplit : ((b :: s) ++ '\n'.toUInt8 :: rest).splitOn '\n'.toUInt8 = (b :: s) :: rest.splitOn '\n'.toUInt8 := by
    rw [List.splitOn_eq_splitOnP]
    refine List.splitOnP_append_cons_of_forall_mem (fun x hx => ?_) _ (by decide) _
    rw [beq_eq_false_iff_ne]
    rintro rfl
    exact h hx
  have hkeep : (!(trimRight (b :: s)).isEmpty) = true := by
    rw [Bool.not_eq_true', List.isEmpty_eq_false_iff]
    exact hne
  rw [splitLines, hsplit, List.map_cons, htrim, List.filter_cons, if_pos hkeep]
  rfl

theorem splitLines_nil : splitLines [] = [] := rfl

/-- The commands of a walk as text and as lines. -/
theorem splitLines_commands (commands : List Command) :
    splitLines (commands.flatMap fun c => commandText c ++ ['\n'.toUInt8])
      = commands.map fun c => trimRight (commandText c) := by
  induction commands with
  | nil => exact splitLines_nil
  | cons c commands ih =>
    rw [List.flatMap_cons, List.append_assoc, List.singleton_append,
      splitLines_cons (noNewline_commandText c) (commandText_cons c), ih, List.map_cons]

/-- **`display set` as text and as lines.** For every tree and every list of old lines,
`FormatSetLines` returns the lines of `FormatSet`, in order, and the old lines make no
difference. -/
theorem formatSetLines_eq (tree : List Node) (reuse : List Bytes) :
    formatSetLines tree reuse = splitLines (formatSet tree)
      ∧ ∀ reuse', formatSetLines tree reuse = formatSetLines tree reuse' := by
  suffices h : ∀ reuse, formatSetLines tree reuse = splitLines (formatSet tree) from
    ⟨h reuse, fun reuse' => (h reuse).trans (h reuse').symm⟩
  intro reuse
  obtain ⟨w, commands, -, hplain, hwalk⟩ := @walk_emits (levels tree + 1) tree ⟨[], [], [], false⟩ ⟨rfl, rfl⟩
  have htext : ∀ b, commands.foldl (fun b c => emitText c b) b
      = b ++ commands.flatMap fun c => commandText c ++ ['\n'.toUInt8] := by
    clear hwalk
    induction commands with
    | nil => exact fun b => (List.append_nil b).symm
    | cons c commands ih =>
      intro b
      rw [List.foldl_cons, ih fun c hc => hplain c (List.mem_cons_of_mem _ hc), emitText_eq (hplain c List.mem_cons_self),
        List.flatMap_cons, List.append_assoc]
  have hlines : ∀ st, (commands.foldl (fun st c => emitLine reuse c st) st).lines
      = st.lines ++ commands.map fun c => trimRight (commandText c) := by
    clear hwalk htext
    induction commands with
    | nil => exact fun st => (List.append_nil st.lines).symm
    | cons c commands ih =>
      intro st
      rw [List.foldl_cons, ih fun c hc => hplain c (List.mem_cons_of_mem _ hc), emitLine_lines,
        appendFormatSetLine_eq (hplain c List.mem_cons_self), List.map_cons, List.append_assoc, List.singleton_append]
  dsimp only at hwalk
  rw [formatSetLines, formatSet, walkTree, walkTree, hwalk, hwalk, htext, hlines, List.nil_append, List.nil_append]
  exact (splitLines_commands commands).symm

end Xpf.ConfigSetText
