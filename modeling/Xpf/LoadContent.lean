/-
The load classifier: `ClassifyLoadContent` of `pkg/config/authz_config_load_9892.go`.

A `load` body is either a list of flat commands or hierarchical text. The classifier
decides which, after replacing every comment by blanks, and hands the comment-free text
both to the authorization gate and to the store. It finds the comments with a scanner
of its own, four flags over the bytes, and "the token model here MUST mirror the real
lexer". `LoadTokens.lean` says how far it does.

The source walks an index over `content` and a builder behind it; here the text still to
be read and the text written so far are the loop state.
-/
import Xpf.ConfigLexer

set_option autoImplicit false

namespace Xpf.LoadContent

open Xpf.Loop Xpf.GoStrings Xpf.ConfigLexer

/-! ## Comments -/

/-- `bracketedEndpointLiteralEnd` at a `[` followed by `s`: the literal, and the text
past it. -/
def bracketedEndpointLiteralEnd (s : Bytes) : Option (Bytes × Bytes) :=
  if ¬ s.head?.any isIdentChar then none
  else
    let close := s.dropWhile isIdentChar
    if close.head? ≠ some ']'.toUInt8 then none
    else if close.tail.head? ≠ some ':'.toUInt8 then none
    else
      some ('['.toUInt8 :: s.takeWhile isIdentChar ++ ']'.toUInt8 :: close.tail.takeWhile isIdentChar,
        close.tail.dropWhile isIdentChar)

/-- The loop state of the comment scanner. -/
structure Stripper where
  rest : Bytes
  out : Bytes := []
  inBlock : Bool := false
  inQuote : Bool := false
  escaped : Bool := false
  inToken : Bool := false
  deriving Repr, DecidableEq

/-- The endpoint literal at a token boundary, with the `]` that may stand in front of
it. -/
def literalAt (ch : UInt8) (s : Bytes) : Option (Bytes × Bytes) :=
  if ch = '['.toUInt8 then bracketedEndpointLiteralEnd s
  else if ch = ']'.toUInt8 ∧ s.head? = some '['.toUInt8 then
    (bracketedEndpointLiteralEnd s.tail).map fun r => (ch :: r.1, r.2)
  else none

/-- The bytes that end a token for the scanner. -/
def endsToken (ch : UInt8) : Bool :=
  ch == ' '.toUInt8 || ch == '\t'.toUInt8 || ch == '\r'.toUInt8 || ch == '\x7b'.toUInt8
    || ch == '\x7d'.toUInt8 || ch == ';'.toUInt8 || ch == '|'.toUInt8

/-- One round of the comment scanner. -/
def stripStep (st : Stripper) : Stripper ⊕ Stripper :=
  match st.rest with
  | [] => .inr st
  | ch :: s =>
    if ch = '\n'.toUInt8 then
      .inl { st with rest := s, out := st.out ++ [ch], inToken := st.inQuote && st.inToken }
    else if st.inBlock then
      if ch = '*'.toUInt8 ∧ s.head? = some '/'.toUInt8 then
        .inl { st with rest := s.tail, out := st.out ++ bytes "  ", inBlock := false, inToken := false }
      else .inl { st with rest := s, out := st.out ++ bytes " " }
    else if st.inQuote then
      if st.escaped then .inl { st with rest := s, out := st.out ++ [ch], escaped := false }
      else if ch = '\\'.toUInt8 then .inl { st with rest := s, out := st.out ++ [ch], escaped := true }
      else if ch = '"'.toUInt8 then
        .inl { st with rest := s, out := st.out ++ [ch], inQuote := false, inToken := false }
      else .inl { st with rest := s, out := st.out ++ [ch] }
    else if ch = '"'.toUInt8 then
      .inl { st with rest := s, out := st.out ++ [ch], inToken := false, inQuote := true }
    else if ch = '#'.toUInt8
        ∨ (st.inToken = false ∧ ch = '/'.toUInt8 ∧ s.head? = some '/'.toUInt8) then
      .inl { st with
        rest := (skipLine (ch :: s)).tail
        -- the comment as blanks, and the newline behind it
        out := st.out
          ++ List.replicate ((ch :: s).takeWhile (· != '\n'.toUInt8)).length ' '.toUInt8
          ++ (skipLine (ch :: s)).take 1
        inToken := false }
    else if st.inToken = false ∧ ch = '/'.toUInt8 ∧ s.head? = some '*'.toUInt8 then
      .inl { st with rest := s.tail, out := st.out ++ bytes "  ", inBlock := true }
    else
      match if st.inToken then none else literalAt ch s with
      | some (literal, after) =>
        .inl { st with rest := after, out := st.out ++ literal, inToken := true }
      | none =>
        .inl { st with
          rest := s
          out := st.out ++ [ch]
          -- a bracket that starts a token is list sugar, one inside a token belongs to it
          inToken := !endsToken ch && (st.inToken || !isBracket ch) }

/-- The comment scanner. -/
def strip (st : Stripper) : Stripper := run stripStep id (fun st => st.rest.length) st

/-! ## Flat or hierarchical -/

/-- A text without its leading white space, behind `skip` bytes of it. -/
def trimLeft : ℕ → Bytes → Bytes
  | _, [] => []
  | skip + 1, _ :: s => trimLeft skip s
  | 0, c :: s =>
    match spaceLen (c :: s) with
    | 0 => c :: s
    | n + 1 => trimLeft n s

/-- A text without its trailing white space. -/
def trimRight : Bytes → Bytes
  | [] => []
  | c :: s => if fields (c :: s) = [] then [] else c :: trimRight s

/-- `strings.TrimSpace`. -/
def trimSpace (s : Bytes) : Bytes := trimRight (trimLeft 0 s)

/-- `strings.Split(s, "\n")`. -/
def splitLines : Bytes → List Bytes
  | [] => [[]]
  | c :: s =>
    if c = '\n'.toUInt8 then [] :: splitLines s
    else
      match splitLines s with
      | [] => [[c]]
      | line :: lines => (c :: line) :: lines

/-- `lexConfigMutationLine9938`: the tokens of a line in front of the first that is not
part of a command. -/
def lexConfigMutationLine (line : Bytes) : List Lexeme :=
  (tokens 0 line).takeWhile fun t => t.1 == .identifier || t.1 == .string

/-- `ParseAnnotateCommand`: the path and the comment. -/
def parseAnnotateCommand (line : Bytes) : Option (List Bytes × Bytes) :=
  match lexConfigMutationLine line with
  | verb :: t :: ts =>
    match (t :: ts).getLast? with
    | some comment =>
      if ts = [] ∨ verb.2 ≠ bytes "annotate" ∨ comment.1 ≠ .string then none
      else some ((t :: ts).dropLast.map (·.2), comment.2)
    | none => none
  | _ => none

/-- `IsFlatLoadLine`. -/
def isFlatLoadLine (line : Bytes) : Bool :=
  match fields line with
  | verb :: _ :: _ =>
    if [bytes "set", bytes "delete", bytes "deactivate", bytes "activate"].contains verb then true
    else if verb = bytes "annotate" then
      (trimSpace line).getLast? != some ';'.toUInt8 && (parseAnnotateCommand line).isSome
    else false
  | _ => false

/-- The state of the brace scan: it goes on from line to line. -/
structure LineScan where
  lineBraceDepth : ℕ := 0
  lineHasToken : Bool := false
  scanQuote : Bool := false
  scanEscaped : Bool := false
  tokenStartDepth : ℕ := 0

/-- One byte of the brace scan. The source ranges over runes and looks at the first byte
of each; the bytes behind it are in no case of the switch. -/
def LineScan.byte (st : LineScan) (ch : UInt8) : LineScan :=
  if st.scanQuote then
    { st with
      scanEscaped := !st.scanEscaped && ch == '\\'.toUInt8
      scanQuote := st.scanEscaped || ch != '"'.toUInt8
      lineHasToken := true }
  else if ch = '"'.toUInt8 then { st with scanQuote := true, lineHasToken := true }
  else if ch = '\x7b'.toUInt8 then
    { st with lineBraceDepth := st.lineBraceDepth + 1, lineHasToken := true }
  else if ch = '\x7d'.toUInt8 then
    { st with
      lineBraceDepth := st.lineBraceDepth - 1
      tokenStartDepth := if st.lineHasToken then st.tokenStartDepth else st.lineBraceDepth - 1
      lineHasToken := true }
  else if ch = ' '.toUInt8 ∨ ch = '\t'.toUInt8 ∨ ch = '\r'.toUInt8 then st
  else
    { st with
      tokenStartDepth := if st.lineHasToken then st.tokenStartDepth else st.lineBraceDepth
      lineHasToken := true }

/-- Some line at brace depth `0` is a flat command. -/
def hasFlatLine (st : LineScan) : List Bytes → Bool
  | [] => false
  | line :: lines =>
    let st := line.foldl LineScan.byte { st with tokenStartDepth := st.lineBraceDepth }
    if st.tokenStartDepth == 0 && isFlatLoadLine (trimSpace line) then true
    else hasFlatLine { st with lineHasToken := false } lines

/-- What `ClassifyLoadContent` returns; the error is `unterminated block comment`. -/
structure Classified where
  flat : Bool
  uncommented : Bytes
  unterminated : Bool
  deriving Repr, DecidableEq

/-- `ClassifyLoadContent`. -/
def classifyLoadContent (content : Bytes) : Classified :=
  let st := strip { rest := content }
  if st.inBlock then { flat := false, uncommented := st.out, unterminated := true }
  else
    { flat := hasFlatLine {} (splitLines st.out), uncommented := st.out, unterminated := false }

example : classifyLoadContent (bytes "a; /* set x y */ # b\nset c d")
    = { flat := true, uncommented := bytes "a;                  \nset c d", unterminated := false } := by
  decide +kernel

end Xpf.LoadContent
