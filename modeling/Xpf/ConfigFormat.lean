/-
The configuration text renderer: the quoting of keys in `pkg/config/ast.go` and
`Format` of `pkg/config/ast_format.go`.

A key is written bare when its text alone reads back as that key (`bareKeySafe` asks the
lexer), and quoted otherwise. A leaf puts the `[ ... ]` of its lists back around the
keys that were authored inside them, and writes those keys verbatim. `formatNodes`
writes siblings in `canonicalOrder`.
-/
import Xpf.ConfigParser

set_option autoImplicit false

namespace Xpf.ConfigFormat

open Xpf.GoStrings Xpf.ConfigLexer Xpf.ConfigAst Xpf.ConfigParser

/-! ## Keys -/

/-- `policyTermInlineKeywords`. -/
def policyTermInlineKeywords : List Bytes :=
  ["from", "then", "to", "protocol", "prefix-list", "route-filter", "next-hop", "load-balance",
    "local-preference", "metric", "metric-type", "community", "as-path", "as-path-prepend",
    "origin", "accept", "reject", "next", "neighbor", "rib", "instance", "interface", "family",
    "tag", "area"].map bytes

/-- What `keyEscaper` writes for a byte. -/
def escapeByte (c : UInt8) : Bytes :=
  if c = '\\'.toUInt8 then ['\\'.toUInt8, '\\'.toUInt8]
  else if c = '"'.toUInt8 then ['\\'.toUInt8, '"'.toUInt8]
  else if c = '\n'.toUInt8 then ['\\'.toUInt8, 'n'.toUInt8]
  else [c]

/-- `keyEscaper.Replace`. -/
def keyEscaper (s : Bytes) : Bytes := s.flatMap escapeByte

/-- A key as a string literal. -/
def quoted (s : Bytes) : Bytes := '"'.toUInt8 :: (keyEscaper s ++ ['"'.toUInt8])

/-- `parserMarkers`. -/
def parserMarkers : List Bytes := [inactiveMarker]

/-- `bareKeySafe`: the bare text reads back as exactly this key. -/
def bareKeySafe (s : Bytes) : Bool :=
  !s.isEmpty && s.all isIdentChar
    && (let r := (newLexer s).next
        r.1.type == .identifier && r.1.value == s && r.2.next.1.type == .eof)
    && !parserMarkers.contains s

/-- `quoteKey`. -/
def quoteKey (s : Bytes) : Bytes := if bareKeySafe s then s else quoted s

/-- `keyNeedsAuthoredQuote`. -/
def keyNeedsAuthoredQuote (n : NodeHead) (i : ℕ) : Bool :=
  decide (i < n.keys.length) && n.keyQuoted i
    && (decide (i + 1 < n.keys.length) || policyTermInlineKeywords.contains (n.keys.getD i []))

/-- A key outside a list: an authored quote that decides a grouping stays. -/
def plainKey (n : NodeHead) (i : ℕ) : Bytes :=
  if keyNeedsAuthoredQuote n i then quoted (n.keys.getD i []) else quoteKey (n.keys.getD i [])

/-- The bytes of `" \t\r\n\";{}"`. -/
def breaksBareKey (c : UInt8) : Bool :=
  c == ' '.toUInt8 || c == '\t'.toUInt8 || c == '\r'.toUInt8 || c == '\n'.toUInt8
    || c == '"'.toUInt8 || c == ';'.toUInt8 || c == '\x7b'.toUInt8 || c == '\x7d'.toUInt8

/-- `bracketedLeafKey`: a key inside a list. -/
def bracketedLeafKey (n : NodeHead) (i : ℕ) : Bytes :=
  let k := n.keys.getD i []
  if n.keyQuoted i then quoted k
  else if k.any breaksBareKey then quoteKey k
  else k

/-- The keys of a leaf as the render loops walk over them: a key outside a list alone,
the keys of a maximal bracketed run together. -/
def keyRuns (n : NodeHead) : List ℕ → List (Bool × List ℕ)
  | [] => []
  | i :: is =>
    match keyRuns n is with
    | (true, group) :: rest =>
      if n.keyBracketed i then (true, i :: group) :: rest else (false, [i]) :: (true, group) :: rest
    | rest => (n.keyBracketed i, [i]) :: rest

/-- `[ ... ]` around the keys of a list. -/
def bracketedParts (n : NodeHead) (group : List ℕ) : List Bytes :=
  bytes "[" :: (group.map (bracketedLeafKey n) ++ [bytes "]"])

/-- `quotedLeafKeyPath`. -/
def quotedLeafKeyPath (n : NodeHead) : Bytes :=
  join (bytes " ") ((keyRuns n (List.range n.keys.length)).flatMap fun (isList, group) =>
    if isList then bracketedParts n group else group.map (plainKey n))

/-- `QuotedKeyPath`. -/
def quotedKeyPath (n : NodeHead) : Bytes :=
  if n.isLeaf && maskLen n.keysBracketed == n.keys.length && (n.keysBracketed.getD []).contains true
  then quotedLeafKeyPath n
  else join (bytes " ") ((List.range n.keys.length).map (plainKey n))

/-- The guard of `formatNodeKeyPath`: a closed list of a `from prefix-list` leaf with an
authored-quoted policy keyword in it. -/
def dropsBrackets (n : NodeHead) : Bool :=
  n.isLeaf && n.bracketedClosed && decide (3 ≤ n.keys.length)
    && n.keys.getD 0 [] == bytes "from" && n.keys.getD 1 [] == bytes "prefix-list"
    && maskLen n.keysBracketed == n.keys.length
    && (List.range n.keys.length).any fun i => decide (2 ≤ i) && n.keyBracketed i && n.keyQuoted i
        && policyTermInlineKeywords.contains (n.keys.getD i [])

/-- `omitBrackets`: a run with a quoted policy keyword and no bare one. -/
def omitBrackets (n : NodeHead) (group : List ℕ) : Bool :=
  let keywords := group.filter fun j => policyTermInlineKeywords.contains (n.keys.getD j [])
  !keywords.isEmpty && keywords.all n.keyQuoted

/-- `formatNodeKeyPath`. -/
def formatNodeKeyPath (n : NodeHead) : Bytes :=
  if dropsBrackets n then
    join (bytes " ") ((keyRuns n (List.range n.keys.length)).flatMap fun (isList, group) =>
      if isList && !omitBrackets n group then bracketedParts n group else group.map (plainKey n))
  else quotedKeyPath n

/-! ## Nodes -/

/-- `inactivePrefix`. -/
def inactivePrefix (n : NodeHead) : Bytes :=
  if n.inactive then inactiveMarker ++ bytes " " else []

section

variable {α : Type} (keysOf : α → List Bytes)

/-- The last index whose first key is one of `names`. -/
def lastIdx (names : List Bytes) (nodes : List α) : Option ℕ :=
  (nodes.zipIdx.filter fun (n, _) => (keysOf n).head?.any names.contains).getLast?.map (·.2)

/-- `canonicalOrder`: the last `match` or `from` is moved in front of the last `then`. -/
def canonicalOrder (nodes : List α) : List α :=
  match lastIdx keysOf [bytes "match", bytes "from"] nodes, lastIdx keysOf [bytes "then"] nodes with
  | some matchIdx, some thenIdx =>
    if matchIdx < thenIdx then nodes
    else
      nodes.zipIdx.flatMap fun (n, i) =>
        if i = matchIdx then []
        else if i = thenIdx then (nodes[matchIdx]?).toList ++ [n]
        else [n]
  | _, _ => nodes

end

/-- `strings.Repeat("    ", indent)`. -/
def indentation (indent : ℕ) : Bytes := List.replicate (4 * indent) ' '.toUInt8

/-- The siblings of `formatNodes`, each with its text, written in canonical order. -/
def inOrder (texts : List (NodeHead × Bytes)) : Bytes :=
  (canonicalOrder (fun t => t.1.keys) texts).flatMap (·.2)

/-- The comment line of an annotation. -/
def annotationLine (indent : ℕ) (n : NodeHead) : Bytes :=
  if n.annotationText = [] then []
  else indentation indent ++ bytes "/* " ++ n.annotationText ++ bytes " */\n"

mutual

/-- The loop body of `formatNodes`. -/
def Node.format (indent : ℕ) : Node → Bytes
  | ⟨n, children⟩ =>
    annotationLine indent n ++ indentation indent ++ inactivePrefix n ++ formatNodeKeyPath n
      ++ if n.isLeaf then bytes ";\n"
        else bytes " \x7b\n" ++ inOrder (formatTexts (indent + 1) children)
          ++ indentation indent ++ bytes "\x7d\n"

/-- Every node of a sibling list with its text. -/
def formatTexts (indent : ℕ) : List Node → List (NodeHead × Bytes)
  | [] => []
  | n :: rest => (n.toNodeHead, Node.format indent n) :: formatTexts indent rest

end

/-- `formatNodes`. -/
def formatNodes (indent : ℕ) (nodes : List Node) : Bytes := inOrder (formatTexts indent nodes)

/-- `Format`. -/
def format (tree : List Node) : Bytes := formatNodes 0 tree

end Xpf.ConfigFormat
