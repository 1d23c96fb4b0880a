/-
The configuration lexer: `pkg/config/lexer.go`.

`Next` skips a gap (white space, comments, the brackets of a list) and returns the
token behind it. The lexer keeps the input and an offset; here it keeps what is left
of the input, `rest`. Line and column move with the offset and with nothing else
(`advance`), so the loops below work on the bytes alone, and `posAt` moves the line
and the column over the bytes a loop has consumed.

An unterminated block comment is the one error a gap can meet. The source stashes it
in `pending` and drains it in the same call of `Next`; here it is what the skip loop
answers.
-/
import Xpf.Loop
import Xpf.GoStrings

set_option autoImplicit false

namespace Xpf.ConfigLexer

open Xpf.Loop Xpf.GoStrings

/-! ## Tokens -/

/-- `TokenType`. -/
inductive TokenType
  | lBrace
  | rBrace
  | semicolon
  | identifier
  | string
  | pipe
  | eof
  | error
  deriving Repr, DecidableEq

/-- `Token`. -/
structure Token where
  type : TokenType
  value : Bytes
  line : ℕ
  column : ℕ
  deriving Repr, DecidableEq

/-- `isIdentChar`: the bytes of a bare word. -/
def isIdentChar (ch : UInt8) : Bool :=
  ('a'.toUInt8 ≤ ch && ch ≤ 'z'.toUInt8) || ('A'.toUInt8 ≤ ch && ch ≤ 'Z'.toUInt8)
    || ('0'.toUInt8 ≤ ch && ch ≤ '9'.toUInt8)
    || ch == '-'.toUInt8 || ch == '_'.toUInt8 || ch == '.'.toUInt8
    || ch == '/'.toUInt8 || ch == ':'.toUInt8 || ch == '*'.toUInt8 || ch == '+'.toUInt8
    || ch == '%'.toUInt8 || ch == '='.toUInt8 || ch == ','.toUInt8
    || ch == '<'.toUInt8 || ch == '>'.toUInt8

/-- The two list delimiters. -/
def isBracket (ch : UInt8) : Bool := ch == '['.toUInt8 || ch == ']'.toUInt8

/-- The white space of `skipWhitespaceAndComments`. -/
def isBlank (ch : UInt8) : Bool :=
  ch == ' '.toUInt8 || ch == '\t'.toUInt8 || ch == '\n'.toUInt8 || ch == '\r'.toUInt8

/-! ## The gap in front of a token -/

/-- What one call of `Next` keeps while it skips a gap. -/
structure Gap where
  rest : Bytes
  bracketDepth : ℕ
  sawOpenAtZero : Bool
  gapLoss : Bool
  gapClosed : Bool
  pendingComment : Bytes
  hasComment : Bool
  deriving Repr, DecidableEq

/-- The text without its first line, the newline itself kept. -/
def skipLine (s : Bytes) : Bytes := s.dropWhile (· != '\n'.toUInt8)

/-- The body of a block comment and the text behind its `*/`; `none` when the
comment is not closed. -/
def splitClose : Bytes → Option (Bytes × Bytes)
  | [] => none
  | c :: s =>
    if c = '*'.toUInt8 ∧ s.head? = some '/'.toUInt8 then some ([], s.tail)
    else (splitClose s).map fun r => (c :: r.1, r.2)

/-- The normalized text of a comment, joined to the comments of the gap so far. -/
def Gap.addComment (g : Gap) (content : Bytes) : Gap :=
  let text := join (bytes " ") (fields content)
  if text = [] then g
  else if g.hasComment then { g with pendingComment := g.pendingComment ++ bytes " " ++ text }
  else { g with pendingComment := text, hasComment := true }

/-- One round of `skipWhitespaceAndComments`. The exit value is the opening of an
unterminated block comment, if that is what ended the skipping. -/
def skipStep (g : Gap) : Gap ⊕ (Gap × Option Bytes) :=
  match g.rest with
  | [] => .inr (g, none)
  | ch :: s =>
    if isBlank ch then .inl { g with rest := s }
    else if ch = '#'.toUInt8 then .inl { g with rest := skipLine s }
    else if ch = '/'.toUInt8 ∧ s.head? = some '*'.toUInt8 then
      match splitClose s.tail with
      | none => .inr ({ g with rest := [] }, some (ch :: s))
      | some (content, after) => .inl ({ g with rest := after }.addComment content)
    else if ch = '/'.toUInt8 ∧ s.head? = some '/'.toUInt8 then
      .inl { g with rest := skipLine s }
    else .inr (g, none)

/-- `skipWhitespaceAndComments`. -/
def skipWhitespaceAndComments (g : Gap) : Gap × Option Bytes :=
  run skipStep (fun g => (g, none)) (fun g => g.rest.length) g

/-- `tryBracketedEndpointLiteral` at a `[` followed by `s`: the literal
`[<addr>]:port` and the text behind it. -/
def tryBracketedEndpointLiteral (s : Bytes) : Option (Bytes × Bytes) :=
  let addr := s.takeWhile isIdentChar
  let close := s.dropWhile isIdentChar
  if addr = [] then none
  else if close.head? ≠ some ']'.toUInt8 then none
  else if close.tail.head? ≠ some ':'.toUInt8 then none
  else
    some ('['.toUInt8 :: addr ++ ']'.toUInt8 :: close.tail.takeWhile isIdentChar,
      close.tail.dropWhile isIdentChar)

/-- How the skip loop of `Next` ends. -/
inductive GapEnd
  /-- at an unterminated block comment, whose opening is `start` -/
  | unterminated (start : Bytes)
  | eof
  /-- with an endpoint literal, in front of the rest of the gap state -/
  | literal (start value : Bytes)
  /-- in front of any other token -/
  | token
  deriving Repr, DecidableEq

/-- One round of the skip loop of `Next`: comments and white space, then one
bracket. -/
def gapStep (g : Gap) : Gap ⊕ (Gap × GapEnd) :=
  match skipWhitespaceAndComments g with
  | (g, some start) => .inr (g, .unterminated start)
  | (g, none) =>
    match g.rest with
    | [] => .inr (g, .eof)
    | c :: s =>
      if c = '['.toUInt8 then
        match tryBracketedEndpointLiteral s with
        | some (value, after) => .inr ({ g with rest := after }, .literal (c :: s) value)
        | none =>
          .inl { g with
            rest := s
            sawOpenAtZero := g.sawOpenAtZero || g.bracketDepth == 0
            bracketDepth := g.bracketDepth + 1 }
      else if c = ']'.toUInt8 then
        if 0 < g.bracketDepth then
          .inl { g with
            rest := s
            bracketDepth := g.bracketDepth - 1
            gapClosed := true
            -- a pair opened and closed in this gap leaves no token inside it
            gapLoss := g.gapLoss || (g.bracketDepth - 1 == 0 && g.sawOpenAtZero) }
        else .inl { g with rest := s, gapLoss := true }
      else .inr (g, .token)

/-- The skip loop of `Next`. -/
def skipGap (g : Gap) : Gap × GapEnd :=
  run gapStep (fun g => (g, .eof)) (fun g => g.rest.length) g

/-- The gap state a call of `Next` starts with. -/
def Gap.start (bracketDepth : ℕ) (rest : Bytes) : Gap :=
  { rest, bracketDepth, sawOpenAtZero := false, gapLoss := false, gapClosed := false
    pendingComment := [], hasComment := false }

/-! ## The token behind the gap -/

/-- What `readString` writes for a backslash and the byte behind it. -/
def unescape (e : UInt8) : Bytes :=
  if e = '"'.toUInt8 then ['"'.toUInt8]
  else if e = '\\'.toUInt8 then ['\\'.toUInt8]
  else if e = 'n'.toUInt8 then ['\n'.toUInt8]
  else ['\\'.toUInt8, e]

/-- The loop of `readString` behind the opening quote: the value and the text behind
the closing quote, `none` when there is no closing quote. -/
def readStringLoop : Bytes → Option (Bytes × Bytes)
  | [] => none
  | ch :: s =>
    if ch = '"'.toUInt8 then some ([], s)
    else if ch = '\\'.toUInt8 then
      match s with
      | [] => none
      | e :: s => (readStringLoop s).map fun r => (unescape e ++ r.1, r.2)
    else (readStringLoop s).map fun r => (ch :: r.1, r.2)

/-- `readString`: type, value and rest. -/
def readString (s : Bytes) : TokenType × Bytes × Bytes :=
  match readStringLoop s with
  | some (value, rest) => (.string, value, rest)
  | none => (.error, bytes "unterminated string", [])

/-- The bytes `readIdentifier` runs over: outside any list a bracket is one of them. -/
def isWordByte (bracketDepth : ℕ) (ch : UInt8) : Bool :=
  isIdentChar ch || (bracketDepth == 0 && isBracket ch)

/-- `readIdentifier`. -/
def readIdentifier (bracketDepth : ℕ) (s : Bytes) : TokenType × Bytes × Bytes :=
  (.identifier, s.takeWhile (isWordByte bracketDepth), s.dropWhile (isWordByte bracketDepth))

/-- The UTF-8 encoding of the rune a byte is printed as by `%c`. -/
def encodeByte (ch : UInt8) : Bytes :=
  if ch < 0x80 then [ch] else [(0xC0 : UInt8) ||| (ch >>> 6), (0x80 : UInt8) ||| (ch &&& 0x3F)]

/-- The `switch` of `Next` on the first byte of a token. -/
def readToken (bracketDepth : ℕ) (ch : UInt8) (s : Bytes) : TokenType × Bytes × Bytes :=
  if ch = '\x7b'.toUInt8 then (.lBrace, [ch], s)
  else if ch = '\x7d'.toUInt8 then (.rBrace, [ch], s)
  else if ch = ';'.toUInt8 then (.semicolon, [ch], s)
  else if ch = '|'.toUInt8 then (.pipe, [ch], s)
  else if ch = '"'.toUInt8 then readString s
  else if isIdentChar ch then readIdentifier bracketDepth (ch :: s)
  else (.error, bytes "unexpected character: " ++ encodeByte ch, s)

/-- What one call of `Next` finds, positions left out. `start` is the text from the
token on, `gap` the gap state, with the text behind the token as its rest. `marks` is
what `tokInBracket` is set to, `none` where `Next` leaves it as it was. -/
structure Scan where
  type : TokenType
  value : Bytes
  start : Bytes
  gap : Gap
  marks : Option Bool
  deriving Repr, DecidableEq

/-- `tokInBracket` of a token behind a gap. -/
def Gap.inBracket (g : Gap) : Bool := decide (0 < g.bracketDepth) || g.gapLoss

/-- The token at the end of a gap. -/
def finish : Gap × GapEnd → Scan
  | (g, .unterminated start) =>
    { type := .error, value := bytes "unterminated block comment", start, gap := g, marks := none }
  | (g, .eof) => { type := .eof, value := [], start := g.rest, gap := g, marks := none }
  | (g, .literal start value) =>
    { type := .identifier, value, start, gap := g, marks := some g.inBracket }
  | (g, .token) =>
    match g.rest with
    | [] => { type := .eof, value := [], start := [], gap := g, marks := none }
    | ch :: s =>
      let (type, value, rest) := readToken g.bracketDepth ch s
      { type, value, start := ch :: s, gap := { g with rest }, marks := some g.inBracket }

/-- `Next`, positions left out. -/
def scan (bracketDepth : ℕ) (rest : Bytes) : Scan :=
  finish (skipGap (Gap.start bracketDepth rest))

/-! ## The lexer -/

/-- `Lexer`. -/
structure Lexer where
  rest : Bytes
  line : ℕ
  column : ℕ
  bracketDepth : ℕ
  tokInBracket : Bool
  gapLoss : Bool
  gapClosed : Bool
  peekBracketDepth : ℕ
  pendingComment : Bytes
  hasComment : Bool
  deriving Repr, DecidableEq

/-- `NewLexer`. -/
def newLexer (input : Bytes) : Lexer :=
  { rest := input, line := 1, column := 1, bracketDepth := 0, tokInBracket := false
    gapLoss := false, gapClosed := false, peekBracketDepth := 0, pendingComment := []
    hasComment := false }

/-- `advance`: the line and the column behind a byte. -/
def advance (pos : ℕ × ℕ) (ch : UInt8) : ℕ × ℕ :=
  if ch = '\n'.toUInt8 then (pos.1 + 1, 1) else (pos.1, pos.2 + 1)

/-- The line and the column where `rest` is all that is left. -/
def Lexer.posAt (l : Lexer) (rest : Bytes) : ℕ × ℕ :=
  (l.rest.take (l.rest.length - rest.length)).foldl advance (l.line, l.column)

/-- What the lexer keeps of a gap beyond the call that scanned it. -/
def Lexer.setGap (l : Lexer) (g : Gap) : Lexer :=
  { l with
    gapLoss := g.gapLoss
    gapClosed := g.gapClosed
    pendingComment := g.pendingComment
    hasComment := g.hasComment }

/-- The token of a call of `Next`. -/
def Lexer.token (l : Lexer) (s : Scan) : Token :=
  { type := s.type, value := s.value, line := (l.posAt s.start).1, column := (l.posAt s.start).2 }

/-- `Next`. -/
def Lexer.next (l : Lexer) : Token × Lexer :=
  let s := scan l.bracketDepth l.rest
  let pos := l.posAt s.gap.rest
  (l.token s,
    { l.setGap s.gap with
      rest := s.gap.rest
      line := pos.1
      column := pos.2
      bracketDepth := s.gap.bracketDepth
      tokInBracket := s.marks.getD l.tokInBracket })

/-- `Peek`: the position and the bracket state are restored, what is recorded about
the gap is not. -/
def Lexer.peek (l : Lexer) : Token × Lexer :=
  let s := scan l.bracketDepth l.rest
  (l.token s, { l.setGap s.gap with peekBracketDepth := s.gap.bracketDepth })

/-- `LastGapComment`, empty when the gap has no comment. -/
def Lexer.lastGapComment (l : Lexer) : Bytes := if l.hasComment then l.pendingComment else []

/-! ## The loops go down

Every round of the two skip loops consumes a byte, so `run` iterates them to their
exit, and a token other than `EOF` takes at least one byte. -/

theorem skipLine_length (s : Bytes) : (skipLine s).length ≤ s.length :=
  (List.dropWhile_suffix _).length_le

theorem splitClose_length {s content after : Bytes} (h : splitClose s = some (content, after)) :
    after.length < s.length := by
  induction s generalizing content with
  | nil => cases h
  | cons c s ih =>
    rw [splitClose] at h
    split_ifs at h with hc
    · obtain ⟨-, rfl⟩ := Prod.mk.inj (Option.some.inj h)
      have := s.length_tail
      rw [List.length_cons]
      omega
    · obtain ⟨r, hr, he⟩ := Option.map_eq_some_iff.mp h
      obtain ⟨-, rfl⟩ := Prod.mk.inj he
      have := ih hr
      rw [List.length_cons]
      omega

@[simp] theorem addComment_rest (g : Gap) (content : Bytes) :
    (g.addComment content).rest = g.rest := by
  rw [Gap.addComment]
  split_ifs <;> rfl

theorem skipStep_dec (g g' : Gap) (h : skipStep g = .inl g') :
    g'.rest.length < g.rest.length := by
  rw [skipStep] at h
  split at h
  · cases h
  · rename_i ch s hrest
    have hlen : g.rest.length = s.length + 1 := by rw [hrest]; rfl
    have hline := skipLine_length s
    split_ifs at h with h1 h2 h3 h4
    · obtain rfl := Sum.inl.inj h
      dsimp only
      omega
    · obtain rfl := Sum.inl.inj h
      dsimp only
      omega
    · split at h
      · cases h
      · rename_i content after hclose
        obtain rfl := Sum.inl.inj h
        have := splitClose_length hclose
        have := s.length_tail
        rw [addComment_rest]
        dsimp only
        omega
    · obtain rfl := Sum.inl.inj h
      dsimp only
      omega

/-- Skipping never grows the text, and an unterminated comment takes all of it. -/
theorem skipWhitespaceAndComments_length (g : Gap) :
    (skipWhitespaceAndComments g).1.rest.length ≤ g.rest.length
      ∧ ((skipWhitespaceAndComments g).2 ≠ none →
          0 < g.rest.length ∧ (skipWhitespaceAndComments g).1.rest = []) := by
  refine run_induct skipStep_dec (motive := fun g r => r.1.rest.length ≤ g.rest.length
    ∧ (r.2 ≠ none → 0 < g.rest.length ∧ r.1.rest = [])) ?_ ?_ g
  · intro g r h
    rw [skipStep] at h
    split at h
    · obtain rfl := Sum.inr.inj h
      exact ⟨Nat.le_refl _, fun hne => absurd rfl hne⟩
    · rename_i ch s hrest
      split_ifs at h with h1 h2 h3 h4
      · split at h
        · obtain rfl := Sum.inr.inj h
          exact ⟨Nat.zero_le _, fun _ => ⟨by rw [hrest]; exact Nat.succ_pos _, rfl⟩⟩
        · cases h
      · obtain rfl := Sum.inr.inj h
        exact ⟨Nat.le_refl _, fun hne => absurd rfl hne⟩
  · intro g g' r h hr
    have := skipStep_dec g g' h
    exact ⟨by omega, fun hne => ⟨by omega, (hr.2 hne).2⟩⟩

theorem gapStep_dec (g g' : Gap) (h : gapStep g = .inl g') :
    g'.rest.length < g.rest.length := by
  have hle := skipWhitespaceAndComments_length g
  rw [gapStep] at h
  split at h
  · cases h
  · rename_i g1 hskip
    rw [hskip] at hle
    replace hle := hle.1
    split at h
    · cases h
    · rename_i c s hrest
      have hlen : g1.rest.length = s.length + 1 := by rw [hrest]; rfl
      dsimp only at hle
      split_ifs at h with h1 h2 h3
      · split at h
        · cases h
        · obtain rfl := Sum.inl.inj h; dsimp only; omega
      · obtain rfl := Sum.inl.inj h; dsimp only; omega
      · obtain rfl := Sum.inl.inj h; dsimp only; omega

theorem tryBracketedEndpointLiteral_length {s value after : Bytes}
    (h : tryBracketedEndpointLiteral s = some (value, after)) :
    after.length < s.length ∧ value.length ≤ s.length + 1 := by
  rw [tryBracketedEndpointLiteral] at h
  split_ifs at h with h1 h2 h3
  obtain ⟨rfl, rfl⟩ := Prod.mk.inj (Option.some.inj h)
  have hdrop : (s.dropWhile isIdentChar).length ≤ s.length :=
    (List.dropWhile_suffix _).length_le
  have htail : ((s.dropWhile isIdentChar).tail.dropWhile isIdentChar).length
      ≤ (s.dropWhile isIdentChar).tail.length := (List.dropWhile_suffix _).length_le
  have hne : 0 < (s.dropWhile isIdentChar).length := by
    cases hs : s.dropWhile isIdentChar with
    | nil => rw [hs] at h2; simp at h2
    | cons c t => exact Nat.succ_pos _
  have hsplit := congrArg List.length (List.takeWhile_append_dropWhile (p := isIdentChar) (l := s))
  have htake : ((s.dropWhile isIdentChar).tail.takeWhile isIdentChar).length
      ≤ (s.dropWhile isIdentChar).tail.length := ( List.takeWhile_prefix _).length_le
  rw [List.length_tail] at htail htake
  rw [List.length_append] at hsplit
  refine ⟨by omega, ?_⟩
  simp only [List.cons_append, List.length_cons, List.length_append]
  omega

/-- How far the skip loop gets, by the way it ends. -/
theorem skipGap_spec (g : Gap) :
    (skipGap g).1.rest.length ≤ g.rest.length ∧
      match (skipGap g).2 with
      | .unterminated _ => 0 < g.rest.length ∧ (skipGap g).1.rest = []
      | .eof => (skipGap g).1.rest = []
      | .literal _ value =>
        (skipGap g).1.rest.length < g.rest.length ∧ value.length ≤ g.rest.length
      | .token => ∃ ch s, (skipGap g).1.rest = ch :: s ∧ isBracket ch = false := by
  refine run_induct gapStep_dec (motive := fun g r => r.1.rest.length ≤ g.rest.length ∧
      match r.2 with
      | .unterminated _ => 0 < g.rest.length ∧ r.1.rest = []
      | .eof => r.1.rest = []
      | .literal _ value => r.1.rest.length < g.rest.length ∧ value.length ≤ g.rest.length
      | .token => ∃ ch s, r.1.rest = ch :: s ∧ isBracket ch = false) ?_ ?_ g
  · intro g r h
    have hskip := skipWhitespaceAndComments_length g
    rw [gapStep] at h
    split at h
    · rename_i g1 start heq
      obtain rfl := Sum.inr.inj h
      rw [heq] at hskip
      exact ⟨hskip.1, hskip.2 (by simp)⟩
    · rename_i g1 heq
      rw [heq] at hskip
      have hle : g1.rest.length ≤ g.rest.length := hskip.1
      split at h
      · rename_i hrest
        obtain rfl := Sum.inr.inj h
        exact ⟨hle, hrest⟩
      · rename_i c s hrest
        have hlen : g1.rest.length = s.length + 1 := by rw [hrest]; rfl
        split_ifs at h with h1 h2 h3
        · split at h
          · rename_i value after hlit
            obtain rfl := Sum.inr.inj h
            have := tryBracketedEndpointLiteral_length hlit
            dsimp only
            exact ⟨by omega, by omega, by omega⟩
          · cases h
        · obtain rfl := Sum.inr.inj h
          exact ⟨hle, c, s, hrest, by simp [isBracket, h1, h2]⟩
  · intro g g' r h hr
    have hlt := gapStep_dec g g' h
    refine ⟨by omega, ?_⟩
    cases he : r.2 with
    | unterminated start => rw [he] at hr; exact ⟨by omega, hr.2.2⟩
    | eof => rw [he] at hr; exact hr.2
    | literal start value =>
      rw [he] at hr
      have := hr.2
      dsimp only at this ⊢
      exact ⟨by omega, by omega⟩
    | token => rw [he] at hr; exact hr.2

theorem readStringLoop_length {s value rest : Bytes}
    (h : readStringLoop s = some (value, rest)) : rest.length < s.length := by
  fun_induction readStringLoop s generalizing value with
  | case1 => cases h
  | case2 s =>
    obtain ⟨-, rfl⟩ := Prod.mk.inj (Option.some.inj h)
    exact Nat.lt_succ_self _
  | case3 => cases h
  | case4 _ e s ih =>
    obtain ⟨r, hr, he⟩ := Option.map_eq_some_iff.mp h
    obtain ⟨-, rfl⟩ := Prod.mk.inj he
    have := ih hr
    simp only [List.length_cons]
    omega
  | case5 ch s h1 h2 ih =>
    obtain ⟨r, hr, he⟩ := Option.map_eq_some_iff.mp h
    obtain ⟨-, rfl⟩ := Prod.mk.inj he
    have := ih hr
    rw [List.length_cons]
    omega

theorem readToken_length (d : ℕ) (ch : UInt8) (s : Bytes) :
    (readToken d ch s).2.2.length ≤ s.length := by
  rw [readToken]
  split_ifs with h1 h2 h3 h4 h5 h6
  · exact Nat.le_refl _
  · exact Nat.le_refl _
  · exact Nat.le_refl _
  · exact Nat.le_refl _
  · rw [readString]
    split
    · rename_i value rest hread
      exact Nat.le_of_lt (readStringLoop_length hread)
    · exact Nat.zero_le _
  · have hword : isWordByte d ch = true := by rw [isWordByte, h6]; rfl
    rw [readIdentifier, List.dropWhile_cons_of_pos hword]
    exact (List.dropWhile_suffix _).length_le
  · exact Nat.le_refl _

theorem readToken_ne_eof (d : ℕ) (ch : UInt8) (s : Bytes) : (readToken d ch s).1 ≠ .eof := by
  rw [readToken]
  split_ifs
  · exact TokenType.noConfusion
  · exact TokenType.noConfusion
  · exact TokenType.noConfusion
  · exact TokenType.noConfusion
  · rw [readString]; split <;> exact TokenType.noConfusion
  · exact TokenType.noConfusion
  · exact TokenType.noConfusion

/-- **A token takes bytes**: `Next` never grows the text, and only `EOF` leaves it as
it is, with nothing behind it. -/
theorem scan_length (d : ℕ) (s : Bytes) :
    (scan d s).gap.rest.length ≤ s.length
      ∧ ((scan d s).type ≠ .eof → (scan d s).gap.rest.length < s.length)
      ∧ ((scan d s).type = .eof → (scan d s).gap.rest = []) := by
  have hgap := skipGap_spec (Gap.start d s)
  have hs : (Gap.start d s).rest = s := rfl
  rw [hs] at hgap
  rw [scan]
  generalize skipGap (Gap.start d s) = r at hgap
  obtain ⟨g, e⟩ := r
  dsimp only at hgap
  cases e with
  | unterminated start =>
    obtain ⟨hle, hpos, hnil⟩ := hgap
    refine ⟨hle, fun _ => ?_, fun h => by cases h⟩
    rw [finish, hnil]; exact hpos
  | eof => exact ⟨hgap.1, fun h => absurd rfl h, fun _ => hgap.2⟩
  | literal start value => exact ⟨hgap.1, fun _ => hgap.2.1, fun h => by cases h⟩
  | token =>
    obtain ⟨hle, ch, t, hrest, -⟩ := hgap
    rw [finish, hrest]
    rw [hrest, List.length_cons] at hle
    have hlen := readToken_length g.bracketDepth ch t
    have hne := readToken_ne_eof g.bracketDepth ch t
    have hlt : (readToken g.bracketDepth ch t).2.2.length < s.length := by omega
    exact ⟨Nat.le_of_lt hlt, fun _ => hlt, fun h => absurd h hne⟩

/-! ## The interface

What the parser sees of `Next` and `Peek` is the scan of the current text; a `Peek`
does not move it. -/

/-- The scan at the current position. -/
def Lexer.scan (l : Lexer) : Scan := ConfigLexer.scan l.bracketDepth l.rest

@[simp] theorem peek_type (l : Lexer) : l.peek.1.type = l.scan.type := rfl
@[simp] theorem peek_value (l : Lexer) : l.peek.1.value = l.scan.value := rfl
@[simp] theorem peek_rest (l : Lexer) : l.peek.2.rest = l.rest := rfl
@[simp] theorem peek_bracketDepth (l : Lexer) : l.peek.2.bracketDepth = l.bracketDepth := rfl
@[simp] theorem peek_scan (l : Lexer) : l.peek.2.scan = l.scan := rfl
@[simp] theorem peek_gapLoss (l : Lexer) : l.peek.2.gapLoss = l.scan.gap.gapLoss := rfl
@[simp] theorem peek_gapClosed (l : Lexer) : l.peek.2.gapClosed = l.scan.gap.gapClosed := rfl
@[simp] theorem peek_hasComment (l : Lexer) : l.peek.2.hasComment = l.scan.gap.hasComment := rfl
@[simp] theorem peek_pendingComment (l : Lexer) :
    l.peek.2.pendingComment = l.scan.gap.pendingComment := rfl
@[simp] theorem next_type (l : Lexer) : l.next.1.type = l.scan.type := rfl
@[simp] theorem next_value (l : Lexer) : l.next.1.value = l.scan.value := rfl
@[simp] theorem next_rest (l : Lexer) : l.next.2.rest = l.scan.gap.rest := rfl
@[simp] theorem next_bracketDepth (l : Lexer) :
    l.next.2.bracketDepth = l.scan.gap.bracketDepth := rfl
@[simp] theorem next_gapLoss (l : Lexer) : l.next.2.gapLoss = l.scan.gap.gapLoss := rfl
@[simp] theorem next_tokInBracket (l : Lexer) :
    l.next.2.tokInBracket = l.scan.marks.getD l.tokInBracket := rfl
@[simp] theorem peek_token (l : Lexer) : l.peek.1 = l.next.1 := rfl
@[simp] theorem peek_next (l : Lexer) : l.peek.2.next.1 = l.next.1 := rfl

/-- `Next` makes progress at every token but `EOF`. -/
theorem next_length_lt (l : Lexer) (h : l.scan.type ≠ .eof) :
    l.next.2.rest.length < l.rest.length :=
  (scan_length l.bracketDepth l.rest).2.1 h

theorem next_length_le (l : Lexer) : l.next.2.rest.length ≤ l.rest.length :=
  (scan_length l.bracketDepth l.rest).1

/-- The kind and the value of a token. -/
abbrev Lexeme := TokenType × Bytes

/-- The tokens of a text in front of its `EOF`, with fuel. -/
def tokensFuel : ℕ → ℕ → Bytes → List Lexeme
  | 0, _, _ => []
  | n + 1, d, s =>
    let t := scan d s
    if t.type = .eof then []
    else (t.type, t.value) :: tokensFuel n t.gap.bracketDepth t.gap.rest

/-- **The token sequence** `Next` produces on a text until `EOF`, from a bracket depth
on: kinds and values. -/
def tokens (d : ℕ) (s : Bytes) : List Lexeme := tokensFuel (s.length + 1) d s

theorem tokensFuel_eq : ∀ (n k d : ℕ) (s : Bytes), s.length < n → s.length < k →
    tokensFuel n d s = tokensFuel k d s := by
  intro n
  induction n with
  | zero => intro k d s hn _; omega
  | succ n ih =>
    intro k d s hn hk
    obtain ⟨k, rfl⟩ : ∃ j, k = j + 1 := ⟨k - 1, by omega⟩
    rw [tokensFuel, tokensFuel]
    by_cases heof : (scan d s).type = .eof
    · rw [if_pos heof, if_pos heof]
    · have hlt := (scan_length d s).2.1 heof
      rw [if_neg heof, if_neg heof, ih k _ _ (by omega) (by omega)]

theorem tokens_eof {d : ℕ} {s : Bytes} (h : (scan d s).type = .eof) : tokens d s = [] := by
  rw [tokens, tokensFuel, if_pos h]

theorem tokens_cons {d : ℕ} {s : Bytes} (h : (scan d s).type ≠ .eof) :
    tokens d s = ((scan d s).type, (scan d s).value)
      :: tokens (scan d s).gap.bracketDepth (scan d s).gap.rest := by
  have hlt := (scan_length d s).2.1 h
  rw [tokens, tokensFuel, if_neg h, tokens,
    tokensFuel_eq s.length ((scan d s).gap.rest.length + 1) _ _ hlt (Nat.lt_succ_self _)]

/-- The tokens a lexer still has in front of it. -/
def Lexer.tokens (l : Lexer) : List Lexeme := ConfigLexer.tokens l.bracketDepth l.rest

@[simp] theorem peek_tokens (l : Lexer) : l.peek.2.tokens = l.tokens := rfl

theorem Lexer.tokens_eof {l : Lexer} (h : l.scan.type = .eof) : l.tokens = [] :=
  ConfigLexer.tokens_eof h

theorem Lexer.tokens_cons {l : Lexer} (h : l.scan.type ≠ .eof) :
    l.tokens = (l.scan.type, l.scan.value) :: l.next.2.tokens :=
  ConfigLexer.tokens_cons h

end Xpf.ConfigLexer
