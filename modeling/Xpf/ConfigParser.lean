/-
The configuration parser: `pkg/config/parser.go`.

A recursive-descent parser over the lexer. A statement is a run of keys followed by
`;` or by a `{ ... }` block; a leading `inactive:` deactivates it, an inline one
deactivates what follows it. The parser recovers from every error and goes on, so its
answer is always a tree together with the errors, and a configuration is accepted when
there are none.

The recursion of the source is bounded by `maxParseDepth`. Here `parseStatements`
recurses on the number of levels left, and the check of the source against `p.depth`
stands inside it: with `maxParseDepth + 1` levels at the top it always answers before
the levels run out.
-/
import Xpf.ConfigLexer
import Xpf.ConfigAst

set_option autoImplicit false

namespace Xpf.ConfigParser

open Xpf.Loop Xpf.GoStrings Xpf.ConfigLexer Xpf.ConfigAst

/-! ## State -/

/-- The texts of the parser's errors. -/
inductive ParseMessage
  /-- `unexpected %s at top level (unmatched '}'?)` -/
  | unexpectedAtTopLevel (tok : Token)
  /-- `additional parse errors suppressed (%d)` -/
  | suppressed (count : ℕ)
  /-- `configuration nesting exceeds maximum depth of %d` -/
  | nesting (depth : ℕ)
  /-- the text of an error token -/
  | lexer (value : Bytes)
  /-- `unexpected %s` -/
  | unexpected (tok : Token)
  /-- `inactive: marker must be followed by a statement` -/
  | markerAlone
  /-- `expected '}', got %s` -/
  | expectedRBrace (tok : Token)
  /-- `expected ';', got %s` -/
  | expectedSemicolon (tok : Token)
  /-- `configuration exceeds the %d-statement parse budget; parsing stopped ...` -/
  | budget (nodes : ℕ)
  deriving Repr, DecidableEq

/-- `ParseError`. -/
structure ParseError where
  line : ℕ := 0
  column : ℕ := 0
  message : ParseMessage
  deriving Repr, DecidableEq

def maxParseDepth : ℕ := 256

def maxParseErrors : ℕ := 64

def maxParseNodes : ℕ := 200000

/-- `Parser`. -/
structure Parser where
  lexer : Lexer
  errors : List ParseError := []
  depth : ℕ := 0
  nodes : ℕ := 0
  nodeBudgetExceeded : Bool := false
  suppressed : ℕ := 0
  deriving Repr, DecidableEq

/-- `NewParser`. -/
def newParser (input : Bytes) : Parser := { lexer := newLexer input }

/-- `p.lexer.Peek()`. -/
def Parser.peek (p : Parser) : Token × Parser :=
  (p.lexer.peek.1, { p with lexer := p.lexer.peek.2 })

/-- `p.lexer.Next()`. -/
def Parser.next (p : Parser) : Token × Parser :=
  (p.lexer.next.1, { p with lexer := p.lexer.next.2 })

/-- `addError` and `addErrorf`: past the cap an error is only counted. -/
def Parser.addError (p : Parser) (line column : ℕ) (message : ParseMessage) : Parser :=
  if maxParseErrors ≤ p.errors.length then { p with suppressed := p.suppressed + 1 }
  else { p with errors := p.errors ++ [{ line, column, message }] }

/-- `noteNodeBudget`: one error whatever the cap says, and the latch. -/
def Parser.noteNodeBudget (p : Parser) (line column : ℕ) : Parser :=
  if p.nodeBudgetExceeded then p
  else
    { p with
      nodeBudgetExceeded := true
      errors := p.errors ++ [{ line, column, message := .budget maxParseNodes }] }

/-! ## Keys -/

/-- A key of a statement: the value, the kind of its token and whether it stood inside
a list. -/
structure KeyTok where
  value : Bytes
  kind : TokenType
  bracketed : Bool
  deriving Repr, DecidableEq

/-- The token kinds a key can have. -/
def isKey (t : TokenType) : Bool := t == .identifier || t == .string

/-- The loop state of `parseKeys`. -/
structure KeysState where
  parser : Parser
  keys : List KeyTok
  sawClose : Bool

/-- One round of `parseKeys`. -/
def keysStep (st : KeysState) : KeysState ⊕ KeysState :=
  let (tok, p) := st.parser.peek
  let sawClose := st.sawClose || p.lexer.gapClosed
  if isKey tok.type then
    if maxParseNodes ≤ p.nodes + st.keys.length then
      .inr ⟨p.noteNodeBudget tok.line tok.column, st.keys, sawClose⟩
    else
      let (_, p) := p.next
      .inl ⟨p, st.keys ++ [⟨tok.value, tok.type, p.lexer.tokInBracket⟩],
        sawClose || p.lexer.gapClosed⟩
  else .inr ⟨p, st.keys, sawClose⟩

/-- The loop of `parseKeys`. -/
def keysLoop (st : KeysState) : KeysState :=
  run keysStep id (fun st => st.parser.lexer.rest.length) st

/-- The span-end mark: a trailing gap that lost brackets marks the last key. -/
def markLast (loss : Bool) (keys : List KeyTok) : List KeyTok :=
  match keys.getLast? with
  | none => keys
  | some k => keys.dropLast ++ [{ k with bracketed := k.bracketed || loss }]

/-- `parseKeys`: the keys up to a terminator, and whether a list opened among them was
closed before it. -/
def parseKeys (p : Parser) : List KeyTok × Bool × Parser :=
  let startDepth := p.lexer.bracketDepth
  let st := keysLoop ⟨p, [], false⟩
  let keys := markLast st.parser.lexer.gapLoss st.keys
  let closed := startDepth == 0 && st.parser.lexer.peekBracketDepth == 0 && st.sawClose
  (keys, closed && !keys.isEmpty, st.parser)

/-- `inactiveMarker`. -/
def inactiveMarker : Bytes := bytes "inactive:"

/-- A bare `inactive:`; a quoted one is a value. -/
def KeyTok.isMarker (k : KeyTok) : Bool := k.kind == .identifier && k.value == inactiveMarker

/-- The keys in front of the first marker, and the keys behind it. -/
def splitMarker : List KeyTok → List KeyTok × Option (List KeyTok)
  | [] => ([], none)
  | k :: ks =>
    if k.isMarker then ([], some ks)
    else ((k :: (splitMarker ks).1), (splitMarker ks).2)

/-- The inline `inactive:` of a statement: what stays of its keys, whether the marker
deactivates it, and the keys of the sub-block the marker governs. -/
structure Inline where
  keys : List KeyTok
  inactive : Bool
  governed : Option (List KeyTok)

/-- The loop over the keys that looks for an inline marker. The first key is never one:
a leading marker has been lifted before. -/
def inlineMarker (keys : List KeyTok) (block : Bool) : Inline :=
  match keys with
  | [] => ⟨[], false, none⟩
  | k :: ks =>
    match splitMarker ks with
    | (_, none) => ⟨k :: ks, false, none⟩
    | (front, some behind) =>
      if block && !behind.isEmpty then ⟨k :: front, false, some behind⟩
      else ⟨k :: front, block, none⟩

/-! ## Statements -/

/-- A node head with the masks of its keys. -/
def keysHead (keys : List KeyTok) (head : NodeHead) : NodeHead :=
  let head := { head with keys := keys.map KeyTok.value }
  let head := head.setKeysQuoted (some (keys.map fun k => k.kind == .string))
  head.setKeysBracketed (some (keys.map KeyTok.bracketed))

/-- The leaf of a statement, read up to the token `tok` behind its keys. -/
def leafNode (annotationText : Bytes) (inactive closed : Bool) (keys : List KeyTok) (tok : Token) :
    Node :=
  let inline := inlineMarker keys false
  { keysHead inline.keys
      { keys := [], isLeaf := true, annotationText, inactive, bracketedClosed := closed
        line := tok.line, column := tok.column } with
    children := [] }

/-- The block of a statement. `parent inactive: sub { ... }` is
`parent { inactive: sub { ... } }`, and neither of its two nodes gets the annotation. -/
def blockNode (annotationText : Bytes) (inactive closed : Bool) (keys : List KeyTok) (tok : Token)
    (children : List Node) : Node :=
  let inline := inlineMarker keys true
  let head : NodeHead :=
    { keys := [], inactive := inactive || inline.inactive, bracketedClosed := closed
      line := tok.line, column := tok.column }
  match inline.governed with
  | some sub =>
    let inner : Node :=
      { keysHead sub { head with inactive := true, bracketedClosed := false } with children }
    { keysHead inline.keys head with children := [inner] }
  | none => { keysHead inline.keys { head with annotationText } with children }

/-- The loop state of `skipToBlockClose`. -/
def skipCloseStep (st : Parser × ℕ) : (Parser × ℕ) ⊕ Parser :=
  let (tok, p) := st.1.peek
  match tok.type with
  | .eof => .inr p
  | .lBrace => .inl (p.next.2, st.2 + 1)
  | .rBrace => if st.2 = 0 then .inr p else .inl (p.next.2, st.2 - 1)
  | _ => .inl (p.next.2, st.2)

/-- `skipToBlockClose`. -/
def skipToBlockClose (p : Parser) : Parser :=
  run skipCloseStep (·.1) (fun st => st.1.lexer.rest.length) (p, 0)

section

variable (block : Parser → List Node × Parser)

/-- `skipStatementBody`, over the parser of a block. -/
def skipStatementBody (p : Parser) : Parser :=
  let (tok, p) := p.peek
  match tok.type with
  | .semicolon => p.next.2
  | .lBrace =>
    let (_, p) := block p.next.2
    let (close, p) := p.peek
    if close.type = .rBrace then p.next.2 else p
  | _ => p

/-- The `{ ... }` of a statement: the children, the closing brace consumed. -/
def parseBody (p : Parser) : List Node × Parser :=
  let (children, p) := block p.next.2
  let (close, p) := p.peek
  if close.type = .rBrace then (children, p.next.2)
  else (children, p.addError close.line close.column (.expectedRBrace close))

/-- What follows the keys of a statement: a block, a `;`, or anything else, which ends
an implicit leaf. -/
def parseTail (annotationText : Bytes) (inactive closed : Bool) (keys : List KeyTok) (p : Parser) :
    Node × Parser :=
  let (tok, p) := p.peek
  match tok.type with
  | .lBrace =>
    let (children, p) := parseBody block p
    (blockNode annotationText inactive closed keys tok children, p)
  | .semicolon => (leafNode annotationText inactive closed keys tok, p.next.2)
  | .eof =>
    (leafNode annotationText inactive closed keys tok,
      p.addError tok.line tok.column (.expectedSemicolon tok))
  | _ => (leafNode annotationText inactive closed keys tok, p)

/-- `parseStatement`. -/
def parseStatement (p : Parser) : Option Node × Parser :=
  let (start, p) := p.peek
  let annotationText := p.lexer.lastGapComment
  let (keys, closed, p) := parseKeys p
  match keys with
  | [] =>
    let (tok, p) := p.next
    if tok.type ≠ .eof then (none, p.addError tok.line tok.column (.unexpected tok)) else (none, p)
  | k :: ks =>
    if k.isMarker then
      if ks.isEmpty then
        let p := p.addError start.line start.column .markerAlone
        let (t, p) := p.peek
        if t.type = .semicolon ∨ t.type = .lBrace then (none, skipStatementBody block p)
        else (none, p)
      else
        let (node, p) := parseTail block annotationText true closed ks p
        (some node, p)
    else
      let (node, p) := parseTail block annotationText false closed (k :: ks) p
      (some node, p)

/-- The loop state of `parseStatements`. -/
abbrev StatementsState := List Node × Parser

/-- One round of `parseStatements`. -/
def statementsStep (st : StatementsState) : StatementsState ⊕ StatementsState :=
  let (nodes, p) := st
  if p.nodeBudgetExceeded then .inr (nodes, p)
  else
    let (tok, p) := p.peek
    if tok.type = .eof ∨ tok.type = .rBrace then .inr (nodes, p)
    else if tok.type = .error then
      .inl (nodes, (p.addError tok.line tok.column (.lexer tok.value)).next.2)
    else if maxParseNodes ≤ p.nodes + 1 then
      .inr (nodes, p.noteNodeBudget tok.line tok.column)
    else
      match parseStatement block p with
      | (some node, p) =>
        .inl (nodes ++ [node], { p with nodes := p.nodes + (1 + node.keys.length) })
      | (none, p) => .inl (nodes, p)

/-- The loop of `parseStatements`. -/
def statementsLoop (st : StatementsState) : StatementsState :=
  run (statementsStep block) id (fun st => st.2.lexer.rest.length) st

end

/-- `parseStatements`, with the number of levels it may still descend. -/
def parseStatements : ℕ → Parser → List Node × Parser
  | 0, p => ([], p)
  | levels + 1, p =>
    if maxParseDepth < p.depth + 1 then
      let (tok, p) := p.peek
      ([], skipToBlockClose (p.addError tok.line tok.column (.nesting maxParseDepth)))
    else
      let (nodes, p) := statementsLoop (parseStatements levels) ([], { p with depth := p.depth + 1 })
      (nodes, { p with depth := p.depth - 1 })

/-- One round of the loop of `Parse`: a stray token at the top level. -/
def parseStep (st : StatementsState) : StatementsState ⊕ StatementsState :=
  let (children, p) := st
  let (tok, p) := p.peek
  if tok.type = .eof then .inr (children, p)
  else if p.nodeBudgetExceeded then .inr (children, p)
  else
    let p := (p.addError tok.line tok.column (.unexpectedAtTopLevel tok)).next.2
    let (more, p) := parseStatements (maxParseDepth + 1) p
    .inl (children ++ more, p)

/-- The loop of `Parse`. -/
def parseLoop (st : StatementsState) : StatementsState :=
  run parseStep id (fun st => st.2.lexer.rest.length) st

/-- `Parse`: the tree and the errors. -/
def parse (input : Bytes) : List Node × List ParseError :=
  let (children, p) := parseLoop (parseStatements (maxParseDepth + 1) (newParser input))
  (children,
    if 0 < p.suppressed then p.errors ++ [{ message := .suppressed p.suppressed }] else p.errors)

/-! ## What every parsing function keeps

The text only gets shorter, the depth is what it was, and errors stay: a parser whose
error list is empty had an empty one all along and never latched its budget. -/

/-- `p'` is a later state of the parser `p`. -/
structure Later (p p' : Parser) : Prop where
  rest : p'.lexer.rest.length ≤ p.lexer.rest.length
  depth : p'.depth = p.depth
  clean : p'.errors = [] → p.errors = [] ∧ p'.nodeBudgetExceeded = p.nodeBudgetExceeded

theorem Later.refl (p : Parser) : Later p p := ⟨Nat.le_refl _, rfl, fun h => ⟨h, rfl⟩⟩

theorem Later.trans {p q r : Parser} (h : Later p q) (h' : Later q r) : Later p r := by
  refine ⟨Nat.le_trans h'.rest h.rest, h'.depth.trans h.depth, fun hr => ?_⟩
  obtain ⟨hq, hbud⟩ := h'.clean hr
  obtain ⟨hp, hbud'⟩ := h.clean hq
  exact ⟨hp, hbud.trans hbud'⟩

theorem later_peek (p : Parser) : Later p p.peek.2 := ⟨Nat.le_refl _, rfl, fun h => ⟨h, rfl⟩⟩

theorem later_next (p : Parser) : Later p p.next.2 :=
  ⟨next_length_le p.lexer, rfl, fun h => ⟨h, rfl⟩⟩

theorem addError_errors_ne (p : Parser) (line column : ℕ) (message : ParseMessage) :
    (p.addError line column message).errors ≠ [] := by
  rw [Parser.addError]
  split_ifs with h
  · intro hnil
    dsimp only at hnil
    rw [hnil] at h
    exact absurd h (by decide)
  · simp

theorem later_addError (p : Parser) (line column : ℕ) (message : ParseMessage) :
    Later p (p.addError line column message) := by
  refine ⟨?_, ?_, fun h => absurd h (addError_errors_ne p line column message)⟩
  · rw [Parser.addError]; split_ifs <;> exact Nat.le_refl _
  · rw [Parser.addError]; split_ifs <;> rfl

theorem later_noteNodeBudget (p : Parser) (line column : ℕ) :
    Later p (p.noteNodeBudget line column) := by
  rw [Parser.noteNodeBudget]
  split_ifs with h
  · exact Later.refl p
  · exact ⟨Nat.le_refl _, rfl, fun hnil => absurd hnil (by simp)⟩

@[simp] theorem Parser.peek_fst (p : Parser) : p.peek.1 = p.lexer.peek.1 := rfl
@[simp] theorem Parser.peek_lexer (p : Parser) : p.peek.2.lexer = p.lexer.peek.2 := rfl
@[simp] theorem Parser.peek_errors (p : Parser) : p.peek.2.errors = p.errors := rfl
@[simp] theorem Parser.next_fst (p : Parser) : p.next.1 = p.lexer.next.1 := rfl
@[simp] theorem Parser.next_lexer (p : Parser) : p.next.2.lexer = p.lexer.next.2 := rfl

theorem isKey_ne_eof {t : TokenType} (h : isKey t = true) : t ≠ .eof := by
  intro heof
  rw [heof] at h
  exact absurd h (by decide)

theorem Parser.next_lt (p : Parser) (h : p.lexer.scan.type ≠ .eof) :
    p.next.2.lexer.rest.length < p.lexer.rest.length :=
  next_length_lt p.lexer h

theorem keysStep_dec (st st' : KeysState) (h : keysStep st = .inl st') :
    st'.parser.lexer.rest.length < st.parser.lexer.rest.length := by
  rw [keysStep] at h
  dsimp only at h
  split_ifs at h with hkey hbud
  obtain rfl := Sum.inl.inj h
  exact st.parser.peek.2.next_lt (isKey_ne_eof hkey)

/-- `parseKeys` moves forward, and past every key it returns. -/
theorem keysLoop_later (st : KeysState) :
    Later st.parser (keysLoop st).parser
      ∧ (keysLoop st).keys.length + (keysLoop st).parser.lexer.rest.length
          ≤ st.keys.length + st.parser.lexer.rest.length := by
  refine run_induct keysStep_dec (motive := fun st st' => Later st.parser st'.parser
    ∧ st'.keys.length + st'.parser.lexer.rest.length
        ≤ st.keys.length + st.parser.lexer.rest.length) ?_ ?_ st
  · intro st st' h
    rw [keysStep] at h
    dsimp only at h
    split_ifs at h with hkey hbud
    · obtain rfl := Sum.inr.inj h
      have hnote := later_noteNodeBudget st.parser.peek.2 st.parser.peek.1.line
        st.parser.peek.1.column
      refine ⟨(later_peek _).trans hnote, ?_⟩
      have := hnote.rest
      have := (later_peek st.parser).rest
      dsimp only
      omega
    · obtain rfl := Sum.inr.inj h
      exact ⟨later_peek _, Nat.le_refl _⟩
  · intro st st' r h hr
    have hlt := keysStep_dec st st' h
    rw [keysStep] at h
    dsimp only at h
    split_ifs at h with hkey hbud
    obtain rfl := Sum.inl.inj h
    refine ⟨((later_peek _).trans (later_next _)).trans hr.1, ?_⟩
    have := hr.2
    simp only [List.length_append, List.length_cons, List.length_nil] at this
    dsimp only at hlt
    omega

/-- Without a key `parseKeys` has not moved. -/
theorem keysLoop_scan (st : KeysState) :
    st.keys.length ≤ (keysLoop st).keys.length
      ∧ ((keysLoop st).keys.length = st.keys.length →
          (keysLoop st).parser.lexer.scan = st.parser.lexer.scan) := by
  refine run_induct keysStep_dec (motive := fun st st' => st.keys.length ≤ st'.keys.length
    ∧ (st'.keys.length = st.keys.length → st'.parser.lexer.scan = st.parser.lexer.scan)) ?_ ?_ st
  · intro st st' h
    rw [keysStep] at h
    dsimp only at h
    split_ifs at h with hkey hbud
    · obtain rfl := Sum.inr.inj h
      refine ⟨Nat.le_refl _, fun _ => ?_⟩
      dsimp only
      rw [Parser.noteNodeBudget]
      split_ifs <;> rfl
    · obtain rfl := Sum.inr.inj h
      exact ⟨Nat.le_refl _, fun _ => rfl⟩
  · intro st st' r h hr
    rw [keysStep] at h
    dsimp only at h
    split_ifs at h with hkey hbud
    obtain rfl := Sum.inl.inj h
    simp only [List.length_append, List.length_cons, List.length_nil] at hr
    exact ⟨by omega, fun heq => by omega⟩

theorem markLast_length (loss : Bool) (keys : List KeyTok) :
    (markLast loss keys).length = keys.length := by
  rw [markLast]
  split
  · rfl
  · rename_i k hk
    have hne : keys ≠ [] := by rintro rfl; cases hk
    have := List.length_pos_iff.mpr hne
    simp only [List.length_append, List.length_dropLast, List.length_cons, List.length_nil]
    omega

theorem parseKeys_later (p : Parser) :
    Later p (parseKeys p).2.2
      ∧ (parseKeys p).1.length + (parseKeys p).2.2.lexer.rest.length
          ≤ p.lexer.rest.length := by
  obtain ⟨hlater, hlen⟩ := keysLoop_later ⟨p, [], false⟩
  refine ⟨hlater, ?_⟩
  rw [parseKeys]
  dsimp only
  rw [markLast_length]
  simpa using hlen

theorem parseKeys_nil_scan (p : Parser) (h : (parseKeys p).1 = []) :
    (parseKeys p).2.2.lexer.scan = p.lexer.scan := by
  refine (keysLoop_scan ⟨p, [], false⟩).2 ?_
  have hlen : (parseKeys p).1.length = 0 := by rw [h]; rfl
  rw [parseKeys] at hlen
  dsimp only at hlen
  rwa [markLast_length] at hlen

theorem skipCloseStep_dec (st st' : Parser × ℕ) (h : skipCloseStep st = .inl st') :
    st'.1.lexer.rest.length < st.1.lexer.rest.length := by
  rw [skipCloseStep] at h
  dsimp only at h
  split at h
  · cases h
  · rename_i htype
    obtain rfl := Sum.inl.inj h
    exact st.1.peek.2.next_lt (by rw [← peek_type]; simp_all)
  · rename_i htype
    split_ifs at h
    obtain rfl := Sum.inl.inj h
    exact st.1.peek.2.next_lt (by rw [← peek_type]; simp_all)
  · rename_i heof _ _
    obtain rfl := Sum.inl.inj h
    exact st.1.peek.2.next_lt heof

theorem skipToBlockClose_later (p : Parser) : Later p (skipToBlockClose p) := by
  refine run_induct skipCloseStep_dec (motive := fun st p' => Later st.1 p') ?_ ?_ (p, 0)
  · intro st p' h
    rw [skipCloseStep] at h
    dsimp only at h
    split at h
    · obtain rfl := Sum.inr.inj h; exact later_peek _
    · cases h
    · split_ifs at h
      obtain rfl := Sum.inr.inj h; exact later_peek _
    · cases h
  · intro st st' p' h hp'
    have hstep : Later st.1 st'.1 := by
      rw [skipCloseStep] at h
      dsimp only at h
      split at h
      · cases h
      · obtain rfl := Sum.inl.inj h; exact (later_peek _).trans (later_next _)
      · split_ifs at h
        obtain rfl := Sum.inl.inj h; exact (later_peek _).trans (later_next _)
      · obtain rfl := Sum.inl.inj h; exact (later_peek _).trans (later_next _)
    exact hstep.trans hp'

section

variable {block : Parser → List Node × Parser} (hblock : ∀ p, Later p (block p).2)

include hblock

theorem skipStatementBody_later (p : Parser) : Later p (skipStatementBody block p) := by
  rw [skipStatementBody]
  dsimp only
  split
  · exact (later_peek p).trans (later_next _)
  · have h := ((later_peek p).trans (later_next _)).trans (hblock p.peek.2.next.2)
    have h' := h.trans (later_peek _)
    split_ifs
    · exact h'.trans (later_next _)
    · exact h'
  · exact later_peek p

theorem parseBody_later (p : Parser) : Later p (parseBody block p).2 := by
  rw [parseBody]
  dsimp only
  have h := ((later_next p).trans (hblock p.next.2)).trans (later_peek _)
  split_ifs
  · exact h.trans (later_next _)
  · exact h.trans (later_addError _ _ _ _)

theorem parseTail_later (annotationText : Bytes) (inactive closed : Bool) (keys : List KeyTok)
    (p : Parser) : Later p (parseTail block annotationText inactive closed keys p).2 := by
  rw [parseTail]
  dsimp only
  split
  · exact (later_peek p).trans (parseBody_later hblock _)
  · exact (later_peek p).trans (later_next _)
  · exact (later_peek p).trans (later_addError _ _ _ _)
  · exact later_peek p

/-- What a statement does behind its keys. -/
theorem parseStatement_afterKeys (p : Parser) :
    Later (parseKeys p.peek.2).2.2 (parseStatement block p).2 := by
  rw [parseStatement]
  dsimp only
  split
  · split_ifs
    · exact (later_next _).trans (later_addError _ _ _ _)
    · exact later_next _
  · split_ifs
    · exact ((later_addError _ _ _ _).trans (later_peek _)).trans
        (skipStatementBody_later hblock _)
    · exact (later_addError _ _ _ _).trans (later_peek _)
    · exact parseTail_later hblock _ _ _ _ _
    · exact parseTail_later hblock _ _ _ _ _

/-- A statement moves forward, by at least a byte unless the text is at its end. -/
theorem parseStatement_later (p : Parser) :
    Later p (parseStatement block p).2
      ∧ (p.lexer.scan.type ≠ .eof →
          (parseStatement block p).2.lexer.rest.length < p.lexer.rest.length) := by
  obtain ⟨hkeys, hlen⟩ := parseKeys_later p.peek.2
  have hafter := parseStatement_afterKeys hblock p
  refine ⟨((later_peek p).trans hkeys).trans hafter, fun hne => ?_⟩
  have hpeek : p.peek.2.lexer.rest.length = p.lexer.rest.length := rfl
  cases hks : (parseKeys p.peek.2).1 with
  | cons k ks =>
    -- a key has been consumed
    rw [hks, List.length_cons] at hlen
    have := hafter.rest
    omega
  | nil =>
    have hscan := parseKeys_nil_scan p.peek.2 hks
    have hlt : (parseKeys p.peek.2).2.2.next.2.lexer.rest.length < p.lexer.rest.length :=
      Nat.lt_of_lt_of_le (Parser.next_lt _ (by rw [hscan]; exact hne)) hkeys.rest
    rw [parseStatement]
    dsimp only
    rw [hks]
    dsimp only
    split_ifs
    · exact Nat.lt_of_le_of_lt (later_addError _ _ _ _).rest hlt
    · exact hlt

theorem statementsStep_later (st st' : StatementsState)
    (h : statementsStep block st = .inl st') :
    Later st.2 st'.2 ∧ st'.2.lexer.rest.length < st.2.lexer.rest.length := by
  obtain ⟨nodes, p⟩ := st
  rw [statementsStep] at h
  dsimp only at h
  split_ifs at h with hbud hend herr hcap
  · obtain rfl := Sum.inl.inj h
    have hadd := later_addError p.peek.2 p.peek.1.line p.peek.1.column (.lexer p.peek.1.value)
    refine ⟨((later_peek p).trans hadd).trans (later_next _), ?_⟩
    refine Nat.lt_of_lt_of_le (Parser.next_lt _ ?_) hadd.rest
    rw [Parser.addError]
    split_ifs <;> exact fun heof => hend (.inl heof)
  · obtain ⟨hlater, hlt⟩ := parseStatement_later hblock p.peek.2
    replace hlt := hlt fun heof => hend (.inl heof)
    split at h
    · rename_i node q hq
      obtain rfl := Sum.inl.inj h
      rw [hq] at hlater hlt
      refine ⟨?_, hlt⟩
      exact ((later_peek p).trans hlater).trans ⟨Nat.le_refl _, rfl, fun hc => ⟨hc, rfl⟩⟩
    · rename_i q hq
      obtain rfl := Sum.inl.inj h
      rw [hq] at hlater hlt
      exact ⟨(later_peek p).trans hlater, hlt⟩

theorem statementsStep_dec (st st' : StatementsState)
    (h : statementsStep block st = .inl st') :
    st'.2.lexer.rest.length < st.2.lexer.rest.length :=
  (statementsStep_later hblock st st' h).2

theorem statementsLoop_later (st : StatementsState) :
    Later st.2 (statementsLoop block st).2 := by
  refine run_induct (statementsStep_dec hblock) (motive := fun st st' => Later st.2 st'.2) ?_ ?_ st
  · intro st st' h
    obtain ⟨nodes, p⟩ := st
    rw [statementsStep] at h
    dsimp only at h
    split_ifs at h with hbud hend herr hcap
    · obtain rfl := Sum.inr.inj h; exact Later.refl p
    · obtain rfl := Sum.inr.inj h; exact later_peek p
    · obtain rfl := Sum.inr.inj h; exact (later_peek p).trans (later_noteNodeBudget _ _ _)
    · split at h <;> cases h
  · intro st st' r h hr
    exact (statementsStep_later hblock st st' h).1.trans hr

end

/-- `parseStatements` leaves a later state, at every level. -/
theorem parseStatements_later : ∀ (levels : ℕ) (p : Parser),
    Later p (parseStatements levels p).2 := by
  intro levels
  induction levels with
  | zero => exact Later.refl
  | succ levels ih =>
    intro p
    rw [parseStatements]
    split_ifs with hdepth
    · exact ((later_peek p).trans (later_addError _ _ _ _)).trans (skipToBlockClose_later _)
    · have hloop := statementsLoop_later ih ([], { p with depth := p.depth + 1 })
      refine ⟨hloop.rest, ?_, hloop.clean⟩
      have hd := hloop.depth
      dsimp only at hd ⊢
      omega

theorem parseStep_dec (st st' : StatementsState) (h : parseStep st = .inl st') :
    st'.2.lexer.rest.length < st.2.lexer.rest.length := by
  obtain ⟨children, p⟩ := st
  rw [parseStep] at h
  dsimp only at h
  split_ifs at h with heof hbud
  obtain rfl := Sum.inl.inj h
  have hadd := later_addError p.peek.2 p.peek.1.line p.peek.1.column
    (.unexpectedAtTopLevel p.peek.1)
  refine Nat.lt_of_le_of_lt (parseStatements_later _ _).rest ?_
  refine Nat.lt_of_lt_of_le (Parser.next_lt _ ?_) hadd.rest
  rw [Parser.addError]
  split_ifs <;> exact heof

theorem parseLoop_later (st : StatementsState) : Later st.2 (parseLoop st).2 := by
  refine run_induct parseStep_dec (motive := fun st st' => Later st.2 st'.2) ?_ ?_ st
  · intro st st' h
    obtain ⟨children, p⟩ := st
    rw [parseStep] at h
    dsimp only at h
    split_ifs at h with heof hbud
    · obtain rfl := Sum.inr.inj h; exact later_peek p
    · obtain rfl := Sum.inr.inj h; exact later_peek p
  · intro st st' r h hr
    obtain ⟨children, p⟩ := st
    rw [parseStep] at h
    dsimp only at h
    split_ifs at h with heof hbud
    obtain rfl := Sum.inl.inj h
    refine Later.trans ?_ hr
    exact (((later_peek p).trans (later_addError _ _ _ _)).trans (later_next _)).trans
      (parseStatements_later _ _)

/-- An accepted text is accepted by the first call of `parseStatements`, which leaves
the lexer at its end. -/
theorem parse_clean {input : Bytes} (h : (parse input).2 = []) :
    (parse input).1 = (parseStatements (maxParseDepth + 1) (newParser input)).1
      ∧ (parseStatements (maxParseDepth + 1) (newParser input)).2.errors = []
      ∧ (parseStatements (maxParseDepth + 1) (newParser input)).2.lexer.scan.type = .eof := by
  rw [parse] at h ⊢
  dsimp only at h ⊢
  have herrors : (parseLoop (parseStatements (maxParseDepth + 1) (newParser input))).2.errors
      = [] := by
    split_ifs at h
    · simp at h
    · exact h
  have hstart := parseStatements_later (maxParseDepth + 1) (newParser input)
  generalize parseStatements (maxParseDepth + 1) (newParser input) = st at hstart herrors ⊢
  have hclean := (parseLoop_later st).clean herrors
  have hbud : st.2.nodeBudgetExceeded = false := (hstart.clean hclean.1).2
  obtain ⟨children, p⟩ := st
  cases hstep : parseStep (children, p) with
  | inl st' =>
    -- going round once more records an error first
    have hloop : parseLoop (children, p) = parseLoop st' := run_inl parseStep_dec hstep
    rw [hloop] at herrors
    have hst' := ((parseLoop_later st').clean herrors).1
    rw [parseStep] at hstep
    dsimp only at hstep
    split_ifs at hstep with heof hexc
    obtain rfl := Sum.inl.inj hstep
    have hnext := ((parseStatements_later _ _).clean hst').1
    exact absurd hnext (addError_errors_ne p.peek.2 _ _ _)
  | inr st' =>
    have hloop : parseLoop (children, p) = st' := run_inr hstep
    rw [parseStep] at hstep
    dsimp only at hstep hbud
    split_ifs at hstep with heof hexc
    · obtain rfl := Sum.inr.inj hstep
      rw [hloop]
      exact ⟨rfl, hclean.1, heof⟩
    · exact absurd hexc (Bool.eq_false_iff.mp hbud)

end Xpf.ConfigParser
