/-
`LoadTokens.lean` -- the comment scanner of `load` against the lexer.

The scanner and the lexer read the same text, and the scanner should blank exactly what
the lexer skips as a comment. They fall out of step in two places:

| | |
|---|---|
| `escapesNewline` | a backslash in front of a newline inside a string: the scanner looks at the newline first and keeps the escape for the byte behind it |
| `commentBehindBrackets` | a comment right behind a bracket that ends a key of an open list, or right behind an endpoint literal and a bracket: the scanner takes the bracket for a part of the key and the comment with it |

`classifyLoadContent_tokens` says that on every other text the comment-free text has
exactly the tokens of the original. The induction goes over the text from the left with
the scanner at a token boundary or inside a token; one equation of `strip` and one of
`tokens` for each thing that can stand there.
-/
import Xpf.LoadContent
import Xpf.ConfigTokens
import Mathlib.Data.List.Forall2

set_option autoImplicit false

namespace Xpf.LoadTokens

open Xpf.Loop Xpf.GoStrings Xpf.ConfigLexer Xpf.ConfigLexing Xpf.ConfigTokens Xpf.LoadContent

/-! ## Where the two fall out of step -/

/-- A string literal, from behind its opening quote, has a newline behind a backslash. -/
def escapesNewline : Bytes → Bool
  | [] => false
  | ch :: s =>
    if ch = '"'.toUInt8 then false
    else if ch = '\\'.toUInt8 then
      match s with
      | [] => false
      | e :: s => e == '\n'.toUInt8 || escapesNewline s
    else escapesNewline s

/-- Behind list brackets, and no endpoint literal, a comment opens. -/
def commentBehindBrackets : Bytes → Bool
  | [] => false
  | ch :: s =>
    if ch = '['.toUInt8 then (tryBracketedEndpointLiteral s).isNone && commentBehindBrackets s
    else if ch = ']'.toUInt8 then commentBehindBrackets s
    else opensComment (ch :: s)

/-- The scanner and the lexer stay in step over a token. -/
def tokenInStep (t : Scan) : Bool :=
  (t.type != .string || !escapesNewline t.start.tail)
    && (t.type != .identifier || !commentBehindBrackets t.gap.rest)

/-- They stay in step over the tokens of a text, with fuel. -/
def inStepFuel : ℕ → ℕ → Bytes → Bool
  | 0, _, _ => true
  | n + 1, d, s =>
    let t := scan d s
    t.type == .eof || (tokenInStep t && inStepFuel n t.gap.bracketDepth t.gap.rest)

/-- **The scanner and the lexer stay in step** over a text: no string of it escapes a
newline, and no comment stands right behind the brackets of a key. -/
def inStep (d : ℕ) (s : Bytes) : Bool := inStepFuel (s.length + 1) d s

theorem inStepFuel_eq : ∀ (n k d : ℕ) (s : Bytes), s.length < n → s.length < k →
    inStepFuel n d s = inStepFuel k d s := by
  intro n
  induction n with
  | zero => intro k d s hn _; omega
  | succ n ih =>
    intro k d s hn hk
    obtain ⟨k, rfl⟩ : ∃ j, k = j + 1 := ⟨k - 1, by omega⟩
    rw [inStepFuel, inStepFuel]
    by_cases heof : (scan d s).type = .eof
    · rw [heof]
      rfl
    · have hlt := (scan_length d s).2.1 heof
      rw [ih k _ _ (by omega) (by omega)]

theorem inStep_cons {d : ℕ} {s : Bytes} (h : (scan d s).type ≠ .eof) :
    inStep d s = (tokenInStep (scan d s)
      && inStep (scan d s).gap.bracketDepth (scan d s).gap.rest) := by
  have hlt := (scan_length d s).2.1 h
  rw [inStep, inStepFuel, inStep,
    inStepFuel_eq s.length ((scan d s).gap.rest.length + 1) _ _ hlt (Nat.lt_succ_self _)]
  rw [beq_false_of_ne h, Bool.false_or]

theorem inStep_congr {d d' : ℕ} {s s' : Bytes} (h : SameScan (scan d s) (scan d' s')) :
    inStep d s = inStep d' s' := by
  by_cases heof : (scan d s).type = .eof
  · have heof' : (scan d' s').type = .eof := h.type ▸ heof
    rw [inStep, inStepFuel, inStep, inStepFuel, heof, heof']
    rfl
  · have heof' : (scan d' s').type ≠ .eof := h.type ▸ heof
    rw [inStep_cons heof, inStep_cons heof', tokenInStep, tokenInStep, h.type, h.start, h.rest, h.depth]

/-- The text has only tokens, and the two scanners stay in step over it. -/
structure Clean (d : ℕ) (s : Bytes) : Prop where
  tokens : ∀ t ∈ tokens d s, t.1 ≠ .error
  inStep : inStep d s = true

theorem Clean.congr {d d' : ℕ} {s s' : Bytes} (h : Clean d s)
    (hsame : SameScan (scan d s) (scan d' s')) : Clean d' s' :=
  ⟨tokens_congr hsame ▸ h.tokens, inStep_congr hsame ▸ h.inStep⟩

theorem Clean.token {d : ℕ} {s : Bytes} (h : Clean d s) (hne : (scan d s).type ≠ .eof) :
    (scan d s).type ≠ .error ∧ tokenInStep (scan d s) = true
      ∧ Clean (scan d s).gap.bracketDepth (scan d s).gap.rest := by
  have htokens := h.tokens
  have hstep := h.inStep
  rw [tokens_cons hne] at htokens
  rw [inStep_cons hne, Bool.and_eq_true] at hstep
  exact ⟨htokens _ List.mem_cons_self, hstep.1,
    ⟨fun t ht => htokens t (List.mem_cons_of_mem _ ht), hstep.2⟩⟩

theorem tokenInStep_string {t : Scan} (h : tokenInStep t = true) (htype : t.type = .string) :
    escapesNewline t.start.tail = false := by
  rw [tokenInStep, htype, Bool.and_eq_true, Bool.or_eq_true, Bool.not_eq_true'] at h
  exact h.1.resolve_left (by decide)

theorem tokenInStep_word {t : Scan} (h : tokenInStep t = true) (htype : t.type = .identifier) :
    commentBehindBrackets t.gap.rest = false := by
  rw [tokenInStep, htype, Bool.and_eq_true, Bool.or_eq_true, Bool.or_eq_true, Bool.not_eq_true',
    Bool.not_eq_true'] at h
  exact h.2.resolve_left (by decide)

/-! ## The scanner, byte by byte -/

theorem bracketedEndpointLiteralEnd_eq (s : Bytes) :
    bracketedEndpointLiteralEnd s = tryBracketedEndpointLiteral s := by
  rw [bracketedEndpointLiteralEnd, tryBracketedEndpointLiteral]
  have haddr : s.takeWhile isIdentChar = [] ↔ ¬ s.head?.any isIdentChar = true := by
    cases s with
    | nil => exact ⟨fun _ => (by rintro ⟨⟩), fun _ => rfl⟩
    | cons c s =>
      rw [List.takeWhile_cons, List.head?_cons, Option.any_some]
      split_ifs with hc
      · exact ⟨(by rintro ⟨⟩), fun h => absurd hc h⟩
      · exact ⟨fun _ => hc, fun _ => rfl⟩
  by_cases h : s.head?.any isIdentChar = true
  · rw [if_neg (not_not.mpr h), if_neg fun hnil => haddr.mp hnil h]
  · rw [if_pos h, if_pos (haddr.mpr h)]

theorem skipLine_tail_length (ch : UInt8) (s : Bytes) :
    (skipLine (ch :: s)).tail.length < (ch :: s).length := by
  have h := skipLine_length (ch :: s)
  rw [List.length_tail]
  rw [List.length_cons] at h ⊢
  omega

theorem literalAt_length {ch : UInt8} {s literal after : Bytes}
    (h : literalAt ch s = some (literal, after)) : after.length < (ch :: s).length := by
  rw [literalAt] at h
  split_ifs at h with h1 h2
  · rw [bracketedEndpointLiteralEnd_eq] at h
    have hlen := tryBracketedEndpointLiteral_length h
    rw [List.length_cons]
    omega
  · obtain ⟨r, hr, heq⟩ := Option.map_eq_some_iff.mp h
    rw [bracketedEndpointLiteralEnd_eq] at hr
    have hlen := tryBracketedEndpointLiteral_length hr
    rw [← (Prod.mk.inj heq).2]
    rw [List.length_tail] at hlen
    rw [List.length_cons]
    omega

theorem stripStep_dec (st st' : Stripper) (h : stripStep st = .inl st') :
    st'.rest.length < st.rest.length := by
  rw [stripStep] at h
  split at h
  · cases h
  · rename_i ch s hrest
    have htail : s.tail.length < (ch :: s).length := by
      rw [List.length_tail, List.length_cons]
      omega
    rw [hrest]
    split_ifs at h
    all_goals first
      | (obtain rfl := Sum.inl.inj h; exact Nat.lt_succ_self _)
      | (obtain rfl := Sum.inl.inj h; exact htail)
      | (obtain rfl := Sum.inl.inj h; exact skipLine_tail_length ch s)
      | skip
    all_goals
      split at h
      · rename_i literal after hlit
        obtain rfl := Sum.inl.inj h
        exact literalAt_length (by simpa using hlit)
      · obtain rfl := Sum.inl.inj h
        exact Nat.lt_succ_self _

theorem strip_step {st st' : Stripper} (h : stripStep st = .inl st') : strip st = strip st' :=
  run_inl stripStep_dec h

/-- The scanner outside comments and strings, in front of `s`, with `o` written. -/
def scanner (o : Bytes) (inToken : Bool) (s : Bytes) : Stripper := { rest := s, out := o, inToken }

theorem strip_newline (o : Bytes) (b : Bool) (s : Bytes) :
    strip (scanner o b ('\n'.toUInt8 :: s)) = strip (scanner (o ++ ['\n'.toUInt8]) false s) := by
  refine strip_step ?_
  rw [stripStep, scanner]
  exact if_pos rfl

/-- A byte that is written as it is. -/
theorem strip_plain (o : Bytes) {b : Bool} {ch : UInt8} {s : Bytes}
    (h1 : ch ≠ '\n'.toUInt8) (h2 : ch ≠ '"'.toUInt8) (h3 : ch ≠ '#'.toUInt8)
    (hopen : b = true ∨ opensComment (ch :: s) = false) (hlit : b = true ∨ literalAt ch s = none) :
    strip (scanner o b (ch :: s))
      = strip (scanner (o ++ [ch]) (!endsToken ch && (b || !isBracket ch)) s) := by
  have hcomment : b = false → ch = '/'.toUInt8 → s.head? ≠ some '/'.toUInt8
      ∧ s.head? ≠ some '*'.toUInt8 := by
    intro hb hslash
    have hopen' := hopen.resolve_left (by rw [hb]; exact Bool.false_ne_true)
    rw [opensComment, hslash] at hopen'
    simp only [List.head?_cons, List.tail_cons, beq_self_eq_true, Bool.true_and,
      Bool.or_eq_false_iff, beq_eq_false_iff_ne] at hopen'
    exact ⟨hopen'.2, hopen'.1⟩
  have hnone : (if b = true then none else literalAt ch s) = none := by
    split_ifs with hb
    · rfl
    · exact hlit.resolve_left hb
  refine strip_step ?_
  rw [stripStep, scanner]
  dsimp only
  rw [if_neg h1, if_neg Bool.false_ne_true, if_neg Bool.false_ne_true, if_neg h2, if_neg, if_neg,
    hnone]
  · rfl
  · rintro ⟨hb, hslash, hstar⟩
    exact (hcomment hb hslash).2 hstar
  · rintro (hhash | ⟨hb, hslash, hslash'⟩)
    · exact h3 hhash
    · exact (hcomment hb hslash).1 hslash'

theorem literalAt_none {ch : UInt8} (s : Bytes) (h : isBracket ch = false) :
    literalAt ch s = none := by
  rw [isBracket, Bool.or_eq_false_iff, beq_eq_false_iff_ne, beq_eq_false_iff_ne] at h
  rw [literalAt, if_neg h.1, if_neg fun hc => h.2 hc.1]

theorem opensComment_of_ne {ch : UInt8} (s : Bytes) (h : ch ≠ '/'.toUInt8) :
    opensComment (ch :: s) = false := by
  rw [opensComment, List.head?_cons, Bool.and_eq_false_iff]
  exact .inl (by simpa using h)

/-- A blank or a token of punctuation. -/
theorem strip_endsToken (o : Bytes) (b : Bool) {ch : UInt8} (s : Bytes) (h : endsToken ch = true) :
    strip (scanner o b (ch :: s)) = strip (scanner (o ++ [ch]) false s) := by
  have hne : ∀ c : UInt8, endsToken c = false → ch ≠ c := by
    rintro c hc rfl
    rw [h] at hc
    cases hc
  have hbracket : isBracket ch = false := by
    rw [isBracket, Bool.or_eq_false_iff, beq_eq_false_iff_ne, beq_eq_false_iff_ne]
    exact ⟨hne _ (by decide), hne _ (by decide)⟩
  rw [strip_plain o (hne _ (by decide)) (hne _ (by decide)) (hne _ (by decide))
    (.inr (opensComment_of_ne s (hne _ (by decide)))) (.inr (literalAt_none s hbracket)), h]
  rfl

/-- A byte of a word. -/
theorem strip_ident (o : Bytes) {b : Bool} {ch : UInt8} {s : Bytes} (h : isIdentChar ch = true)
    (hopen : b = true ∨ opensComment (ch :: s) = false) :
    strip (scanner o b (ch :: s)) = strip (scanner (o ++ [ch]) true s) := by
  have hends : endsToken ch = false := by
    simp only [endsToken, Bool.or_eq_false_iff, beq_eq_false_iff_ne]
    exact ⟨⟨⟨⟨⟨⟨isIdentChar_ne h (by decide), isIdentChar_ne h (by decide)⟩,
      isIdentChar_ne h (by decide)⟩, isIdentChar_ne h (by decide)⟩, isIdentChar_ne h (by decide)⟩,
      isIdentChar_ne h (by decide)⟩, isIdentChar_ne h (by decide)⟩
  rw [strip_plain o (isIdentChar_ne h (by decide)) (isIdentChar_ne h (by decide))
    (isIdentChar_ne h (by decide)) hopen (.inr (literalAt_none s (isIdentChar_not_bracket h))),
    hends, isIdentChar_not_bracket h, Bool.not_false, Bool.or_true]
  rfl

/-- A bracket that starts no endpoint literal, or stands inside a token. -/
theorem strip_bracket (o : Bytes) {b : Bool} {ch : UInt8} {s : Bytes} (h : isBracket ch = true)
    (hlit : b = true ∨ literalAt ch s = none) :
    strip (scanner o b (ch :: s)) = strip (scanner (o ++ [ch]) b s) := by
  have hne : ∀ c : UInt8, isBracket c = false → ch ≠ c := by
    rintro c hc rfl
    rw [h] at hc
    cases hc
  have hends : endsToken ch = false := by
    simp only [endsToken, Bool.or_eq_false_iff, beq_eq_false_iff_ne]
    exact ⟨⟨⟨⟨⟨⟨hne _ (by decide), hne _ (by decide)⟩, hne _ (by decide)⟩, hne _ (by decide)⟩,
      hne _ (by decide)⟩, hne _ (by decide)⟩, hne _ (by decide)⟩
  rw [strip_plain o (hne _ (by decide)) (hne _ (by decide)) (hne _ (by decide))
    (.inr (opensComment_of_ne s (hne _ (by decide)))) hlit, hends, h, Bool.not_true, Bool.or_false]
  rfl

/-- A run of word bytes inside a token. -/
theorem strip_word (o : Bytes) {w : Bytes} (s : Bytes)
    (h : ∀ c ∈ w, isIdentChar c = true ∨ isBracket c = true) :
    strip (scanner o true (w ++ s)) = strip (scanner (o ++ w) true s) := by
  induction w generalizing o with
  | nil => rw [List.nil_append, List.append_nil]
  | cons c w ih =>
    have hrest := ih (o ++ [c]) fun c hc => h c (List.mem_cons_of_mem _ hc)
    rw [List.append_assoc, List.singleton_append] at hrest
    rw [List.cons_append, ← hrest]
    rcases h c List.mem_cons_self with hc | hc
    · exact strip_ident o hc (.inl rfl)
    · exact strip_bracket o hc (.inl rfl)

theorem literal_bytes {addr port : Bytes} (haddr : ∀ b ∈ addr, isIdentChar b = true)
    (hport : ∀ b ∈ port, isIdentChar b = true) :
    ∀ c ∈ endpointLiteral addr port, isIdentChar c = true ∨ isBracket c = true := by
  intro c hc
  rw [endpointLiteral] at hc
  simp only [List.mem_cons, List.mem_append] at hc
  rcases hc with rfl | hc | rfl | rfl | hc
  · exact .inr (by decide)
  · exact .inl (haddr c hc)
  · exact .inr (by decide)
  · exact .inl (by decide)
  · exact .inl (hport c hc)

/-- An endpoint literal is written as it is, and the scanner is inside a token behind
it. -/
theorem strip_literal (o : Bytes) (b : Bool) {s value after : Bytes}
    (h : tryBracketedEndpointLiteral s = some (value, after)) :
    strip (scanner o b ('['.toUInt8 :: s)) = strip (scanner (o ++ value) true after) := by
  cases b with
  | false =>
    have hlit : literalAt '['.toUInt8 s = some (value, after) := by
      rw [literalAt, if_pos rfl, bracketedEndpointLiteralEnd_eq, h]
    refine strip_step ?_
    rw [stripStep, scanner]
    dsimp only
    rw [if_neg (by decide), if_neg Bool.false_ne_true, if_neg Bool.false_ne_true, if_neg (by decide),
      if_neg, if_neg, if_neg Bool.false_ne_true, hlit]
    · rfl
    · rintro ⟨-, hslash, -⟩
      exact absurd hslash (by decide)
    · rintro (hhash | ⟨-, hslash, -⟩)
      · exact absurd hhash (by decide)
      · exact absurd hslash (by decide)
  | true =>
    obtain ⟨addr, port, -, haddr, hport, -, rfl, rfl⟩ := tryBracketedEndpointLiteral_split h
    rw [← strip_word o after (literal_bytes haddr hport), endpointLiteral]
    simp only [List.cons_append, List.append_assoc]

/-- A closing bracket is written as it is: an endpoint literal behind it is found from
it or from its own bracket. -/
theorem strip_close (o : Bytes) (b : Bool) (s : Bytes) :
    strip (scanner o b (']'.toUInt8 :: s)) = strip (scanner (o ++ [']'.toUInt8]) b s) := by
  have hlit : literalAt ']'.toUInt8 s = if s.head? = some '['.toUInt8 then
      (tryBracketedEndpointLiteral s.tail).map fun r => (']'.toUInt8 :: r.1, r.2) else none := by
    rw [literalAt, if_neg (by decide), bracketedEndpointLiteralEnd_eq]
    by_cases hs : s.head? = some '['.toUInt8
    · rw [if_pos ⟨rfl, hs⟩, if_pos hs]
    · rw [if_neg fun hc => hs hc.2, if_neg hs]
  by_cases hb : b = true
  · exact strip_bracket o (by decide) (.inl hb)
  by_cases hs : s.head? = some '['.toUInt8
  · obtain ⟨t, rfl⟩ := List.head?_eq_some_iff.mp hs
    rw [if_pos hs, List.tail_cons] at hlit
    cases htry : tryBracketedEndpointLiteral t with
    | none =>
      rw [htry] at hlit
      exact strip_bracket o (by decide) (.inr hlit)
    | some r =>
      obtain ⟨value, after⟩ := r
      rw [htry] at hlit
      obtain rfl : b = false := Bool.eq_false_iff.mpr hb
      rw [strip_literal _ false htry, List.append_assoc, List.singleton_append]
      refine strip_step ?_
      rw [stripStep, scanner]
      dsimp only
      rw [if_neg (by decide), if_neg Bool.false_ne_true, if_neg Bool.false_ne_true,
        if_neg (by decide), if_neg, if_neg, if_neg Bool.false_ne_true, hlit]
      · rfl
      · rintro ⟨-, hslash, -⟩
        exact absurd hslash (by decide)
      · rintro (hhash | ⟨-, hslash, -⟩)
        · exact absurd hhash (by decide)
        · exact absurd hslash (by decide)
  · rw [if_neg hs] at hlit
    exact strip_bracket o (by decide) (.inr hlit)

/-! ## Comments and strings -/

/-- What a line comment is replaced by. -/
def blankLine (s : Bytes) : Bytes :=
  List.replicate (s.takeWhile (· != '\n'.toUInt8)).length ' '.toUInt8 ++ (skipLine s).take 1

theorem strip_lineComment (o : Bytes) {b : Bool} {ch : UInt8} {s : Bytes}
    (h1 : ch ≠ '\n'.toUInt8) (h2 : ch ≠ '"'.toUInt8)
    (h : ch = '#'.toUInt8 ∨ (b = false ∧ ch = '/'.toUInt8 ∧ s.head? = some '/'.toUInt8)) :
    strip (scanner o b (ch :: s))
      = strip (scanner (o ++ blankLine (ch :: s)) false (skipLine (ch :: s)).tail) := by
  refine strip_step ?_
  rw [stripStep, scanner]
  dsimp only
  rw [if_neg h1, if_neg Bool.false_ne_true, if_neg Bool.false_ne_true, if_neg h2, if_pos h,
    blankLine, List.append_assoc]
  rfl

/-- The body of a block comment. -/
theorem strip_inBlock {s content after : Bytes} (h : splitClose s = some (content, after)) :
    ∃ body blanks, s = body ++ after ∧ blanks.length = body.length
      ∧ (∀ c ∈ blanks, isBlank c = true)
      ∧ ∀ (o : Bytes) (b : Bool), strip { rest := s, out := o, inBlock := true, inToken := b }
          = strip (scanner (o ++ blanks) false after) := by
  induction s generalizing content with
  | nil => cases h
  | cons c s ih =>
    rw [splitClose] at h
    split_ifs at h with hclose
    · obtain ⟨rfl, rfl⟩ := Prod.mk.inj (Option.some.inj h)
      obtain ⟨rfl, hslash⟩ := hclose
      obtain ⟨t, rfl⟩ := List.head?_eq_some_iff.mp hslash
      refine ⟨['*'.toUInt8, '/'.toUInt8], bytes "  ", rfl, by decide,
        List.all_eq_true.mp (by decide), fun o b => strip_step ?_⟩
      rw [stripStep]
      dsimp only
      rw [if_neg (by decide), if_pos rfl, if_pos ⟨rfl, rfl⟩]
      rfl
    · obtain ⟨⟨content', after'⟩, hsplit, heq⟩ := Option.map_eq_some_iff.mp h
      obtain ⟨-, rfl⟩ : c :: content' = content ∧ after' = after := Prod.mk.inj heq
      obtain ⟨body, blanks, rfl, hlen, hblanks, hstrip⟩ := ih hsplit
      -- a newline stays, any other byte becomes a blank
      refine ⟨c :: body, (if c = '\n'.toUInt8 then c else ' '.toUInt8) :: blanks, rfl,
        congrArg (· + 1) hlen, ?_, fun o b => ?_⟩
      · refine List.forall_mem_cons.mpr ⟨?_, hblanks⟩
        split_ifs with hnl
        · rw [hnl]; decide
        · decide
      · have hrest := fun b => hstrip (o ++ [if c = '\n'.toUInt8 then c else ' '.toUInt8]) b
        simp only [List.append_assoc, List.singleton_append] at hrest
        by_cases hnl : c = '\n'.toUInt8
        · rw [← hrest false]
          refine strip_step ?_
          rw [stripStep, if_pos hnl]
          exact if_pos hnl
        · rw [← hrest b]
          refine strip_step ?_
          rw [stripStep, if_neg hnl]
          dsimp only
          rw [if_neg hnl, if_pos rfl, if_neg hclose]
          rfl

/-- A block comment at a token boundary. -/
theorem strip_blockComment {s content after : Bytes} (h : splitClose s = some (content, after)) :
    ∃ body blanks, s = body ++ after ∧ blanks.length = body.length + 2
      ∧ (∀ c ∈ blanks, isBlank c = true)
      ∧ ∀ o, strip (scanner o false ('/'.toUInt8 :: '*'.toUInt8 :: s))
          = strip (scanner (o ++ blanks) false after) := by
  obtain ⟨body, blanks, rfl, hlen, hblanks, hstrip⟩ := strip_inBlock h
  refine ⟨body, ' '.toUInt8 :: ' '.toUInt8 :: blanks, rfl, congrArg (· + 2) hlen, ?_, fun o => ?_⟩
  · exact List.forall_mem_cons.mpr ⟨by decide, List.forall_mem_cons.mpr ⟨by decide, hblanks⟩⟩
  · have hrest := hstrip (o ++ bytes "  ") false
    have htwo : bytes "  " = [' '.toUInt8, ' '.toUInt8] := by decide
    rw [htwo, List.append_assoc] at hrest
    rw [List.cons_append, List.cons_append, List.nil_append] at hrest
    rw [← hrest]
    refine strip_step ?_
    rw [stripStep, scanner]
    dsimp only
    rw [if_neg (by decide), if_neg Bool.false_ne_true, if_neg Bool.false_ne_true, if_neg (by decide),
      if_neg, if_pos ⟨rfl, rfl, rfl⟩, htwo]
    · rfl
    · rintro (hhash | ⟨-, -, hslash⟩)
      · exact absurd hhash (by decide)
      · exact absurd (Option.some.inj hslash) (by decide)

/-- The body of a string: the scanner and the lexer end it at the same quote. -/
theorem strip_inQuote {s value rest : Bytes} (h : readStringLoop s = some (value, rest))
    (hescapes : escapesNewline s = false) :
    ∃ body, s = body ++ rest ∧ (∀ t, readStringLoop (body ++ t) = some (value, t))
      ∧ ∀ o, strip { rest := s, out := o, inQuote := true } = strip (scanner (o ++ body) false rest) := by
  induction hn : s.length using Nat.strongRecOn generalizing s value with
  | ind n ih =>
    match s with
    | [] => cases h
    | ch :: s =>
      rw [readStringLoop.eq_def] at h
      rw [escapesNewline.eq_def] at hescapes
      dsimp only at h hescapes
      by_cases hquote : ch = '"'.toUInt8
      · rw [if_pos hquote] at h
        obtain ⟨rfl, rfl⟩ := Prod.mk.inj (Option.some.inj h)
        refine ⟨[ch], rfl, fun t => ?_, fun o => strip_step ?_⟩
        · rw [List.singleton_append, readStringLoop.eq_def]
          exact if_pos hquote
        · rw [stripStep]
          dsimp only
          rw [hquote, if_neg (by decide), if_neg Bool.false_ne_true, if_pos rfl,
            if_neg Bool.false_ne_true, if_neg (by decide), if_pos rfl]
          rfl
      · rw [if_neg hquote] at h hescapes
        by_cases hslash : ch = '\\'.toUInt8
        · -- an escape takes the byte behind it along, which is no newline here
          rw [if_pos hslash] at h hescapes
          cases s with
          | nil => cases h
          | cons e s =>
            rw [Bool.or_eq_false_iff, beq_eq_false_iff_ne] at hescapes
            obtain ⟨⟨value', rest'⟩, hread, heq⟩ := Option.map_eq_some_iff.mp h
            obtain ⟨rfl, rfl⟩ : unescape e ++ value' = value ∧ rest' = rest := Prod.mk.inj heq
            obtain ⟨body, rfl, hbody, hstrip⟩ :=
              ih s.length (by rw [← hn]; simp only [List.length_cons]; omega) hread hescapes.2 rfl
            refine ⟨ch :: e :: body, rfl, fun t => ?_, fun o => ?_⟩
            · rw [List.cons_append, List.cons_append, readStringLoop.eq_def]
              dsimp only
              rw [if_neg hquote, if_pos hslash, hbody]
              rfl
            · have hrest := hstrip (o ++ [ch, e])
              rw [List.append_assoc] at hrest
              rw [List.cons_append, List.cons_append, List.nil_append] at hrest
              rw [← hrest]
              have hfirst : stripStep { rest := ch :: e :: (body ++ rest'), out := o, inQuote := true }
                  = .inl { rest := e :: (body ++ rest'), out := o ++ [ch], inQuote := true
                           escaped := true } := by
                rw [stripStep]
                dsimp only
                rw [hslash, if_neg (by decide), if_neg Bool.false_ne_true, if_pos rfl,
                  if_neg Bool.false_ne_true, if_pos rfl]
              have hsecond : stripStep { rest := e :: (body ++ rest'), out := o ++ [ch]
                                         inQuote := true, escaped := true }
                  = .inl { rest := body ++ rest', out := o ++ [ch, e], inQuote := true } := by
                rw [stripStep]
                dsimp only
                rw [if_neg hescapes.1, if_neg Bool.false_ne_true, if_pos rfl, if_pos rfl,
                  List.append_assoc]
                rfl
              exact (strip_step hfirst).trans (strip_step hsecond)
        · rw [if_neg hslash] at h hescapes
          obtain ⟨⟨value', rest'⟩, hread, heq⟩ := Option.map_eq_some_iff.mp h
          obtain ⟨rfl, rfl⟩ : ch :: value' = value ∧ rest' = rest := Prod.mk.inj heq
          obtain ⟨body, rfl, hbody, hstrip⟩ :=
            ih s.length (by rw [← hn]; exact Nat.lt_succ_self _) hread hescapes rfl
          refine ⟨ch :: body, rfl, fun t => ?_, fun o => ?_⟩
          · rw [List.cons_append, readStringLoop.eq_def]
            dsimp only
            rw [if_neg hquote, if_neg hslash, hbody]
            rfl
          · have hrest := hstrip (o ++ [ch])
            rw [List.append_assoc, List.singleton_append] at hrest
            rw [← hrest]
            refine strip_step ?_
            rw [stripStep]
            dsimp only
            by_cases hnl : ch = '\n'.toUInt8
            · rw [if_pos hnl]
              rfl
            · rw [if_neg hnl, if_neg Bool.false_ne_true, if_pos rfl, if_neg Bool.false_ne_true,
                if_neg hslash, if_neg hquote]

/-- A string, from its opening quote on. -/
theorem strip_string (o : Bytes) (b : Bool) {s value rest : Bytes}
    (h : readStringLoop s = some (value, rest)) (hescapes : escapesNewline s = false) :
    ∃ body, s = body ++ rest ∧ (∀ t, readStringLoop (body ++ t) = some (value, t))
      ∧ strip (scanner o b ('"'.toUInt8 :: s))
          = strip (scanner (o ++ '"'.toUInt8 :: body) false rest) := by
  obtain ⟨body, hs, hbody, hstrip⟩ := strip_inQuote h hescapes
  refine ⟨body, hs, hbody, ?_⟩
  have hrest := hstrip (o ++ ['"'.toUInt8])
  rw [List.append_assoc, List.singleton_append] at hrest
  rw [← hrest]
  refine strip_step ?_
  rw [stripStep, scanner]
  dsimp only
  rw [if_neg (by decide), if_neg Bool.false_ne_true, if_neg Bool.false_ne_true, if_pos rfl]

/-! ## A text and its copy

The copy has every byte of the text or a blank in its place. -/

/-- `out` is `s` with some bytes blanked. -/
def Blanked (s out : Bytes) : Prop := List.Forall₂ (fun a c => c = a ∨ isBlank c = true) s out

theorem blanked_refl (s : Bytes) : Blanked s s :=
  List.forall₂_same.mpr fun _ _ => .inl rfl

theorem blanked_append {s s' out out' : Bytes} (h : Blanked s out) (h' : Blanked s' out') :
    Blanked (s ++ s') (out ++ out') := List.rel_append h h'

theorem blanked_blanks {s blanks : Bytes} (hlen : blanks.length = s.length)
    (h : ∀ c ∈ blanks, isBlank c = true) : Blanked s blanks := by
  refine List.forall₂_iff_zip.mpr ⟨hlen.symm, fun {a c} hmem => .inr (h c ?_)⟩
  exact (List.of_mem_zip hmem).2

/-- What the first byte of a text is not, the first byte of the copy is not either, if
no blank is. -/
theorem blanked_head {s out : Bytes} (h : Blanked s out) {p : UInt8 → Bool}
    (hblank : ∀ c, isBlank c = true → p c = false) (hs : ∀ c ∈ s.head?, p c = false) :
    ∀ c ∈ out.head?, p c = false := by
  intro c hc
  cases h with
  | nil => cases hc
  | cons hac _ =>
    obtain rfl := Option.some.inj hc
    rcases hac with rfl | hb
    · exact hs _ rfl
    · exact hblank _ hb

/-- A solid stretch of the copy is in the text. -/
theorem blanked_solid {s w t : Bytes} (h : Blanked s (w ++ t)) (hw : ∀ c ∈ w, isBlank c = false) :
    ∃ s', s = w ++ s' ∧ Blanked s' t := by
  induction w generalizing s with
  | nil => exact ⟨s, rfl, h⟩
  | cons c w ih =>
    cases h with
    | cons hac hrest =>
      obtain ⟨s', rfl, hs'⟩ := ih hrest fun c hc => hw c (List.mem_cons_of_mem _ hc)
      have hc : c = _ := hac.resolve_right (by rw [hw c List.mem_cons_self]; exact Bool.false_ne_true)
      exact ⟨s', by rw [hc]; rfl, hs'⟩

/-- Blanking makes no endpoint literal. -/
theorem blanked_literal {s out : Bytes} (h : Blanked s out)
    (hnone : tryBracketedEndpointLiteral s = none) : tryBracketedEndpointLiteral out = none := by
  cases htry : tryBracketedEndpointLiteral out with
  | none => rfl
  | some r =>
    obtain ⟨addr, port, hne, haddr, -, -, rfl, -⟩ := tryBracketedEndpointLiteral_split htry
    obtain ⟨s', rfl, hs'⟩ := blanked_solid h fun c hc => isIdentChar_not_blank (haddr c hc)
    have hcolon : Blanked s' ([']'.toUInt8, ':'.toUInt8] ++ (port ++ r.2)) := hs'
    obtain ⟨t, rfl, -⟩ := blanked_solid hcolon fun c hc => by
      rcases List.mem_cons.mp hc with rfl | hc
      · decide
      · rw [List.mem_singleton.mp hc]
        decide
    have hstop : ∀ b ∈ (t.dropWhile isIdentChar).head?, isIdentChar b = false := by
      intro b hb
      have hnot := List.head?_dropWhile_not isIdentChar t
      rw [Option.mem_def.mp hb] at hnot
      exact hnot
    have hsome := tryBracketedEndpointLiteral_eq hne haddr
      (fun b (hb : b ∈ t.takeWhile isIdentChar) => List.mem_takeWhile_imp hb) hstop
    rw [List.takeWhile_append_dropWhile] at hsome
    exact absurd (hsome.symm.trans hnone) (by rintro ⟨⟩)

theorem isBlank_not_word (d : ℕ) (c : UInt8) (h : isBlank c = true) : isWordByte d c = false := by
  rw [← Bool.not_eq_true, isWordByte, Bool.or_eq_true, Bool.and_eq_true]
  rintro (hident | ⟨-, hbracket⟩)
  · rw [isIdentChar_not_blank hident] at h
    cases h
  · rw [(solid_bracket hbracket []).blank] at h
    cases h

theorem blanked_stopsWord {d : ℕ} {s out : Bytes} (h : Blanked s out) (hs : StopsWord d s) :
    StopsWord d out := blanked_head h (isBlank_not_word d) hs

/-! ## The two in step -/

/-- From here on the scanner writes a copy with the tokens of the text. -/
def Copies (d : ℕ) (b : Bool) (s : Bytes) : Prop :=
  ∀ o, ∃ out b', strip (scanner o b s) = scanner (o ++ out) b' [] ∧ Blanked s out
    ∧ tokens d out = tokens d s

/-- A piece `w` of the text, for which `w'` is written, in front of a text that is
copied. -/
theorem copies_piece {d d' : ℕ} {b b' : Bool} {w w' t : Bytes} (h : Copies d' b' t)
    (hstrip : ∀ o, strip (scanner o b (w ++ t)) = strip (scanner (o ++ w') b' t))
    (hpiece : Blanked w w')
    (htokens : ∀ out, Blanked t out → tokens d' out = tokens d' t →
      tokens d (w' ++ out) = tokens d (w ++ t)) : Copies d b (w ++ t) := by
  intro o
  obtain ⟨out, b'', hrun, hblanked, htoks⟩ := h (o ++ w')
  refine ⟨w' ++ out, b'', ?_, blanked_append hpiece hblanked, htokens out hblanked htoks⟩
  rw [hstrip, hrun, List.append_assoc]

/-- White space and comments. -/
theorem copies_gap {d : ℕ} {b : Bool} {w w' t : Bytes} (h : Copies d false t)
    (hstrip : ∀ o, strip (scanner o b (w ++ t)) = strip (scanner (o ++ w') false t))
    (hpiece : Blanked w w') (hblank : ∀ c ∈ w', isBlank c = true)
    (hsame : SameScan (scan d (w ++ t)) (scan d t)) : Copies d b (w ++ t) := by
  refine copies_piece h hstrip hpiece fun out _ htoks => ?_
  rw [tokens_blanks d out hblank, htoks, tokens_congr hsame]

/-- A line comment, up to and with its newline. -/
theorem copies_lineComment {d : ℕ} {b : Bool} {s : Bytes} (hclean : Clean d s)
    (hstrip : ∀ o, strip (scanner o b s) = strip (scanner (o ++ blankLine s) false (skipLine s).tail))
    (hsame : SameScan (scan d s) (scan d (skipLine s)))
    (ih : ∀ t, t = (skipLine s).tail → Clean d t → Copies d false t) : Copies d b s := by
  have hsplit : s.takeWhile (· != '\n'.toUInt8) ++ skipLine s = s := List.takeWhile_append_dropWhile
  have hline : Blanked (s.takeWhile (· != '\n'.toUInt8))
      (List.replicate (s.takeWhile (· != '\n'.toUInt8)).length ' '.toUInt8) := by
    refine blanked_blanks (List.length_replicate) fun c hc => ?_
    rw [List.eq_of_mem_replicate hc]
    decide
  have hspaces : ∀ c ∈ List.replicate (s.takeWhile (· != '\n'.toUInt8)).length ' '.toUInt8,
      isBlank c = true := by
    intro c hc
    rw [List.eq_of_mem_replicate hc]
    decide
  cases hrest : skipLine s with
  | nil =>
    rw [hrest] at hsame hsplit
    have hw : s.takeWhile (· != '\n'.toUInt8) = s := by rwa [List.append_nil] at hsplit
    have hout : blankLine s = List.replicate (s.takeWhile (· != '\n'.toUInt8)).length ' '.toUInt8 := by
      rw [blankLine, hrest]
      exact List.append_nil _
    have hcopies := ih [] (by rw [hrest]; rfl) (hclean.congr hsame)
    have hline' : Blanked s _ := Eq.subst (motive := fun w => Blanked w
      (List.replicate (s.takeWhile (· != '\n'.toUInt8)).length ' '.toUInt8)) hw hline
    rw [← List.append_nil s]
    refine copies_gap hcopies ?_ hline' hspaces ?_
    · intro o
      rw [List.append_nil, hstrip, hout, hrest]
      rfl
    · rwa [List.append_nil]
  | cons c t =>
    obtain rfl : c = '\n'.toUInt8 := by
      have hnot := List.head?_dropWhile_not (· != '\n'.toUInt8) s
      rw [← skipLine, hrest] at hnot
      simpa using hnot
    have hblank : SameScan (scan d ('\n'.toUInt8 :: t)) (scan d t) := scan_blank d t (by decide)
    rw [hrest] at hsame hsplit
    have hsame' := hsame.trans hblank
    have hcopies := ih t (by rw [hrest]; rfl) (hclean.congr hsame')
    have hs : s.takeWhile (· != '\n'.toUInt8) ++ ['\n'.toUInt8] ++ t = s := by
      rw [List.append_assoc]
      exact hsplit
    have hout : blankLine s = List.replicate (s.takeWhile (· != '\n'.toUInt8)).length ' '.toUInt8
        ++ ['\n'.toUInt8] := by
      rw [blankLine, hrest]
      rfl
    rw [← hs]
    refine copies_gap hcopies ?_ (blanked_append hline (blanked_refl _)) ?_ ?_
    · intro o
      rw [hs, hstrip, hout, hrest]
      rfl
    · intro c hc
      rcases List.mem_append.mp hc with hc | hc
      · exact hspaces c hc
      · rw [List.mem_singleton.mp hc]
        decide
    · rwa [hs]

theorem copies_literal {d : ℕ} (b : Bool) {s value after : Bytes}
    (hlit : tryBracketedEndpointLiteral s = some (value, after)) (h : Copies d true after) :
    Copies d b ('['.toUInt8 :: s) := by
  obtain ⟨addr, port, hne, haddr, hport, hafter, rfl, rfl⟩ := tryBracketedEndpointLiteral_split hlit
  have htext : ∀ t, endpointLiteral addr port ++ t
      = '['.toUInt8 :: (addr ++ ']'.toUInt8 :: ':'.toUInt8 :: (port ++ t)) := by
    intro t
    simp only [endpointLiteral, List.cons_append, List.append_assoc]
  have htokens : ∀ t, (∀ c ∈ t.head?, isIdentChar c = false) → tokens d (endpointLiteral addr port ++ t)
      = (.identifier, endpointLiteral addr port) :: tokens d t := by
    intro t ht
    rw [htext]
    exact tokens_of_scan (scan_literal d (tryBracketedEndpointLiteral_eq hne haddr hport ht)) (by rintro ⟨⟩)
  rw [← htext]
  refine copies_piece h (fun o => ?_) (blanked_refl _) fun out hblanked htoks => ?_
  · rw [htext]
    exact strip_literal o b hlit
  · have hout := blanked_head hblanked (fun c hc => ?_) hafter
    · rw [htokens out hout, htokens after hafter, htoks]
    · rw [← Bool.not_eq_true]
      intro hident
      rw [isIdentChar_not_blank hident] at hc
      cases hc

theorem copies_string {d : ℕ} (b : Bool) {s value rest : Bytes}
    (hread : readStringLoop s = some (value, rest)) (hescapes : escapesNewline s = false)
    (h : Copies d false rest) : Copies d b ('"'.toUInt8 :: s) := by
  obtain ⟨body, rfl, hbody, -⟩ := strip_string [] b hread hescapes
  have htokens : ∀ t, tokens d ('"'.toUInt8 :: body ++ t) = (.string, value) :: tokens d t :=
    fun t => tokens_of_scan (scan_string d (hbody t)) (by rintro ⟨⟩)
  rw [← List.cons_append]
  refine copies_piece h (fun o => ?_) (blanked_refl _) fun out _ htoks => ?_
  · obtain ⟨body', hs, -, hstrip⟩ := strip_string o b hread hescapes
    obtain rfl := List.append_cancel_right hs
    exact hstrip
  · rw [htokens, htokens, htoks]

theorem copies_punctuation {d : ℕ} (b : Bool) {c : UInt8} {s : Bytes} {type : TokenType}
    (hpunct : punctuation c = some type) (h : Copies d false s) : Copies d b (c :: s) := by
  have hends : endsToken c = true := by
    rw [punctuation] at hpunct
    split_ifs at hpunct with h1 h2 h3 h4
    · rw [h1]; decide
    · rw [h2]; decide
    · rw [h3]; decide
    · rw [h4]; decide
  have htokens : ∀ t, tokens d ([c] ++ t) = (type, [c]) :: tokens d t := by
    intro t
    obtain ⟨hscan, hne, -⟩ := scan_punctuation d t hpunct
    exact tokens_of_scan hscan hne
  rw [← List.singleton_append]
  refine copies_piece h (fun o => strip_endsToken o b s hends) (blanked_refl _) fun out _ htoks => ?_
  rw [htokens, htokens, htoks]

theorem opensComment_append {d : ℕ} {c : UInt8} {w tail tail' : Bytes} (htail : StopsWord d tail')
    (h : opensComment (c :: (w ++ tail)) = false) : opensComment (c :: (w ++ tail')) = false := by
  cases w with
  | cons x w => exact h
  | nil =>
    rw [List.nil_append, opensComment, List.tail_cons, Bool.and_eq_false_iff]
    refine .inr ?_
    have hword : ∀ x, isWordByte d x = true → (tail'.head? == some x) = false := by
      intro x hx
      rw [beq_eq_false_iff_ne]
      intro hhead
      rw [htail x hhead] at hx
      cases hx
    rw [hword _ (by rw [isWordByte]; exact Bool.or_eq_true_iff.mpr (.inl (by decide))),
      hword _ (by rw [isWordByte]; exact Bool.or_eq_true_iff.mpr (.inl (by decide)))]
    rfl

theorem copies_word {d : ℕ} {b : Bool} {c : UInt8} {w tail : Bytes} (hc : isIdentChar c = true)
    (hopen : opensComment (c :: (w ++ tail)) = false) (hw : ∀ x ∈ w, isWordByte d x = true)
    (htail : StopsWord d tail) (h : Copies d true tail) : Copies d b (c :: (w ++ tail)) := by
  have hbytes : ∀ x ∈ w, isIdentChar x = true ∨ isBracket x = true := by
    intro x hx
    have hx' := hw x hx
    rw [isWordByte, Bool.or_eq_true, Bool.and_eq_true] at hx'
    exact hx'.imp id And.right
  have htokens : ∀ t, StopsWord d t → tokens d (c :: w ++ t) = (.identifier, c :: w) :: tokens d t :=
    fun t ht => tokens_of_scan (scan_word d hc (opensComment_append ht hopen) hw ht) (by rintro ⟨⟩)
  rw [← List.cons_append]
  refine copies_piece h (fun o => ?_) (blanked_refl _) fun out hblanked htoks => ?_
  · rw [List.cons_append, strip_ident o hc (.inr hopen), strip_word _ tail hbytes, List.append_assoc]
    rfl
  · rw [htokens out (blanked_stopsWord hblanked htail), htokens tail htail, htoks]

theorem commentBehindBrackets_open {s : Bytes} (h : tryBracketedEndpointLiteral s = none) :
    commentBehindBrackets ('['.toUInt8 :: s) = commentBehindBrackets s := by
  rw [commentBehindBrackets, if_pos rfl, h]
  rfl

theorem commentBehindBrackets_close (s : Bytes) :
    commentBehindBrackets (']'.toUInt8 :: s) = commentBehindBrackets s := by
  rw [commentBehindBrackets, if_neg (by decide), if_pos rfl]

theorem commentBehindBrackets_other {c : UInt8} (s : Bytes) (h : isBracket c = false) :
    commentBehindBrackets (c :: s) = opensComment (c :: s) := by
  rw [isBracket, Bool.or_eq_false_iff, beq_eq_false_iff_ne, beq_eq_false_iff_ne] at h
  rw [commentBehindBrackets, if_neg h.1, if_neg h.2]

theorem skipLine_cons {c : UInt8} (s : Bytes) (h : c ≠ '\n'.toUInt8) : skipLine (c :: s) = skipLine s :=
  List.dropWhile_cons_of_pos (by rwa [bne_iff_ne])

/-- **The scanner copies every clean text**, from a token boundary on or from inside a
token that no comment follows. -/
theorem copies : ∀ (n d : ℕ) (b : Bool) (s : Bytes), s.length = n → Clean d s →
    (b = true → commentBehindBrackets s = false) → Copies d b s := by
  intro n
  induction n using Nat.strongRecOn with
  | ind n ih =>
    intro d b s hn hclean hbehind
    cases s with
    | nil =>
      intro o
      exact ⟨[], b, by rw [List.append_nil]; exact run_inr rfl, blanked_refl [], rfl⟩
    | cons c s =>
      have hlen : s.length < n := by rw [← hn]; exact Nat.lt_succ_self _
      -- white space
      by_cases hblank : isBlank c = true
      · have hsame := scan_blank d s hblank
        have hrest := ih s.length hlen d false s rfl (hclean.congr hsame) (by rintro ⟨⟩)
        rw [← List.singleton_append]
        refine copies_gap hrest (fun o => ?_) (blanked_refl _) ?_ hsame
        · by_cases hnl : c = '\n'.toUInt8
          · rw [hnl]
            exact strip_newline o b s
          · refine strip_endsToken o b s ?_
            simp only [isBlank, Bool.or_eq_true, beq_iff_eq] at hblank
            rcases hblank with ((rfl | rfl) | rfl) | rfl
            · decide
            · decide
            · exact absurd rfl hnl
            · decide
        · intro c' hc'
          rw [List.mem_singleton.mp hc']
          exact hblank
      have hnl : c ≠ '\n'.toUInt8 := by
        rintro rfl
        exact hblank (by decide)
      have hskip : (skipLine (c :: s)).tail.length < n := by
        rw [← hn]
        exact skipLine_tail_length c s
      -- brackets
      by_cases hopen : c = '['.toUInt8
      · subst hopen
        cases hlit : tryBracketedEndpointLiteral s with
        | some r =>
          obtain ⟨value, after⟩ := r
          have hscan := scan_literal d hlit
          obtain ⟨-, hstep, hafter⟩ := hclean.token (by rw [hscan]; rintro ⟨⟩)
          rw [hscan] at hstep hafter
          have hlen' := (tryBracketedEndpointLiteral_length hlit).1
          exact copies_literal b hlit (ih after.length (by omega) d true after rfl hafter fun _ =>
            tokenInStep_word hstep rfl)
        | none =>
          have hsame := scan_open d hlit
          have hrest := ih s.length hlen (d + 1) b s rfl (hclean.congr hsame) fun hb =>
            (commentBehindBrackets_open hlit).symm.trans (hbehind hb)
          have hnone : literalAt '['.toUInt8 s = none := by
            rw [literalAt, if_pos rfl, bracketedEndpointLiteralEnd_eq, hlit]
          rw [← List.singleton_append]
          refine copies_piece hrest (fun o => strip_bracket o (by decide) (.inr hnone)) (blanked_refl _)
            fun out hblanked htoks => ?_
          have hout := scan_open d (blanked_literal hblanked hlit)
          rw [List.singleton_append, List.singleton_append, tokens_congr hout, tokens_congr hsame, htoks]
      by_cases hclose : c = ']'.toUInt8
      · subst hclose
        have hsame := scan_close d s
        have hrest := ih s.length hlen (d - 1) b s rfl (hclean.congr hsame) fun hb =>
          (commentBehindBrackets_close s).symm.trans (hbehind hb)
        rw [← List.singleton_append]
        refine copies_piece hrest (fun o => strip_close o b s) (blanked_refl _) fun out _ htoks => ?_
        rw [List.singleton_append, List.singleton_append, tokens_congr (scan_close d out),
          tokens_congr hsame, htoks]
      have hbracket : isBracket c = false := by
        rw [isBracket, Bool.or_eq_false_iff, beq_eq_false_iff_ne, beq_eq_false_iff_ne]
        exact ⟨hopen, hclose⟩
      -- comments: inside a token only `#` opens one here
      have hcomment : b = true → opensComment (c :: s) = false := fun hb =>
        (commentBehindBrackets_other s hbracket).symm.trans (hbehind hb)
      by_cases hhash : c = '#'.toUInt8
      · have hsame : SameScan (scan d (c :: s)) (scan d (skipLine (c :: s))) := by
          rw [skipLine_cons s hnl, hhash]
          exact scan_hash d s
        refine copies_lineComment hclean (fun o => ?_) hsame fun t ht hcleant => ?_
        · exact strip_lineComment o hnl (by rw [hhash]; decide) (.inl hhash)
        · exact ih t.length (ht ▸ hskip) d false t rfl hcleant (by rintro ⟨⟩)
      by_cases hopens : opensComment (c :: s) = true
      · have hb : b = false := by
          rw [← Bool.not_eq_true]
          intro hb
          rw [hcomment hb] at hopens
          cases hopens
        subst hb
        rw [opensComment, Bool.and_eq_true, Bool.or_eq_true, beq_iff_eq, beq_iff_eq, beq_iff_eq,
          List.head?_cons, List.tail_cons, Option.some_inj] at hopens
        obtain ⟨rfl, hstar | hslash⟩ := hopens
        · obtain ⟨t, rfl⟩ := List.head?_eq_some_iff.mp hstar
          cases hsplit : splitClose t with
          | none =>
            -- an unterminated comment is an error for the lexer
            have hscan : (scan d ('/'.toUInt8 :: '*'.toUInt8 :: t)).type = .error :=
              scan_unterminated d hsplit
            exact absurd hscan (hclean.token (by rw [hscan]; rintro ⟨⟩)).1
          | some r =>
            obtain ⟨content, after⟩ := r
            have hsame := scan_blockComment d hsplit
            have hlt : after.length < t.length := splitClose_length hsplit
            have hrest := ih after.length (by rw [List.length_cons] at hlen; omega) d false after rfl
              (hclean.congr hsame) (by rintro ⟨⟩)
            obtain ⟨body, blanks, rfl, hlen', hblanks, hstrip⟩ := strip_blockComment hsplit
            have hs : '/'.toUInt8 :: '*'.toUInt8 :: (body ++ after)
                = ('/'.toUInt8 :: '*'.toUInt8 :: body) ++ after := rfl
            rw [hs] at hsame ⊢
            exact copies_gap hrest hstrip (blanked_blanks hlen' hblanks) hblanks hsame
        · refine copies_lineComment hclean (fun o => ?_) ?_ fun t ht hcleant => ?_
          · exact strip_lineComment o hnl (by decide) (.inr ⟨rfl, rfl, hslash⟩)
          · obtain ⟨t, rfl⟩ := List.head?_eq_some_iff.mp hslash
            rw [skipLine_cons _ hnl]
            exact scan_lineComment d t
          · exact ih t.length (ht ▸ hskip) d false t rfl hcleant (by rintro ⟨⟩)
      have hopens' : opensComment (c :: s) = false := Bool.eq_false_iff.mpr hopens
      -- tokens
      cases hpunct : punctuation c with
      | some type =>
        obtain ⟨hscan, hne, -⟩ := scan_punctuation d s hpunct
        have hafter := (hclean.token (by rw [hscan]; exact hne)).2.2
        rw [hscan] at hafter
        exact copies_punctuation b hpunct (ih s.length hlen d false s rfl hafter (by rintro ⟨⟩))
      | none =>
        by_cases hquote : c = '"'.toUInt8
        · subst hquote
          cases hread : readStringLoop s with
          | none =>
            have hscan : (scan d ('"'.toUInt8 :: s)).type = .error := scan_unterminatedString d hread
            exact absurd hscan (hclean.token (by rw [hscan]; rintro ⟨⟩)).1
          | some r =>
            obtain ⟨value, rest⟩ := r
            have hscan := scan_string d hread
            obtain ⟨-, hstep, hafter⟩ := hclean.token (by rw [hscan]; rintro ⟨⟩)
            rw [hscan] at hstep hafter
            have hlt := readStringLoop_length hread
            exact copies_string b hread (tokenInStep_string hstep rfl)
              (ih rest.length (by omega) d false rest rfl hafter (by rintro ⟨⟩))
        by_cases hident : isIdentChar c = true
        · have hsplit := List.takeWhile_append_dropWhile (p := isWordByte d) (l := s)
          have hw : ∀ x ∈ s.takeWhile (isWordByte d), isWordByte d x = true := fun x hx =>
            List.mem_takeWhile_imp hx
          have htail : StopsWord d (s.dropWhile (isWordByte d)) := by
            intro x hx
            have hnot := List.head?_dropWhile_not (isWordByte d) s
            rw [Option.mem_def.mp hx] at hnot
            exact hnot
          have hlt : (s.dropWhile (isWordByte d)).length ≤ s.length := List.length_dropWhile_le _ _
          rw [← hsplit] at hclean hopens' ⊢
          have hscan := scan_word d hident hopens' hw htail
          obtain ⟨-, hstep, hafter⟩ := hclean.token (by rw [hscan]; rintro ⟨⟩)
          rw [hscan] at hstep hafter
          exact copies_word hident hopens' hw htail (ih _ (by omega) d true _ rfl hafter fun _ =>
            tokenInStep_word hstep rfl)
        · -- any other byte is an error for the lexer
          have hsolid : Solid c s := by
            refine ⟨Bool.eq_false_iff.mpr hblank, hhash, fun hslash => ?_⟩
            rw [hslash] at hident
            exact absurd (by decide) hident
          have hscan := scan_unexpected d s hsolid hbracket hpunct hquote (Bool.eq_false_iff.mpr hident)
          exact absurd hscan (hclean.token (by rw [hscan]; rintro ⟨⟩)).1

/-- **The comment scanner agrees with the lexer.** A text the lexer tokenizes without an
error, in which no string escapes a newline and no comment stands right behind the
brackets of a key, is classified without an error, and the comment-free text has its
tokens. -/
theorem classifyLoadContent_tokens (content : Bytes)
    (hlexed : ∀ t ∈ tokens 0 content, t.1 ≠ .error) (hstep : inStep 0 content = true) :
    (classifyLoadContent content).unterminated = false
      ∧ tokens 0 (classifyLoadContent content).uncommented = tokens 0 content := by
  obtain ⟨out, b, hstrip, -, htokens⟩ :=
    copies content.length 0 false content rfl ⟨hlexed, hstep⟩ (by rintro ⟨⟩) []
  have hrun : strip { rest := content } = scanner out b [] := hstrip
  rw [classifyLoadContent, hrun]
  exact ⟨rfl, htokens⟩

/-- A list with comments, a string and an endpoint literal. -/
theorem classifyLoadContent_tokens_list :
    let content := bytes "a [ b /* c # */ [::1]:80 ] # d\n\"e /* f\";"
    (classifyLoadContent content).unterminated = false
      ∧ tokens 0 (classifyLoadContent content).uncommented = tokens 0 content :=
  classifyLoadContent_tokens (bytes "a [ b /* c # */ [::1]:80 ] # d\n\"e /* f\";")
    (by decide +kernel) (by decide +kernel)

/-- Behind an escaped newline the scanner misses the end of the string, and takes the
next string for a comment. -/
theorem classifyLoadContent_escapedNewline :
    (∀ t ∈ tokens 0 (bytes "a \"\\\n\" \"# s\";"), t.1 ≠ .error)
      ∧ tokens 0 (classifyLoadContent (bytes "a \"\\\n\" \"# s\";")).uncommented
          ≠ tokens 0 (bytes "a \"\\\n\" \"# s\";") := by
  decide +kernel

/-- A comment right behind a bracket that ends a key is left in the text, but for what
stands behind a `#` in it, so it is no longer closed. -/
example : tokens 0 (classifyLoadContent (bytes "x [ a]/* c # */ b;")).uncommented
    ≠ tokens 0 (bytes "x [ a]/* c # */ b;") := by
  decide +kernel

end Xpf.LoadTokens
