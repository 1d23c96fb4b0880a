/-
`ConfigLexing.lean` -- what `Next` finds in front of a given text.

The equations of the two skip loops, one for each thing a gap can consist of, and from
them the token behind a gap. They are stated for an arbitrary gap state, so that a gap
can be taken apart byte by byte.
-/
import Xpf.ConfigLexer
import Mathlib.Data.List.TakeWhile

set_option autoImplicit false

namespace Xpf.ConfigLexing

open Xpf.Loop Xpf.GoStrings Xpf.ConfigLexer

/-! ## White space and comments -/

/-- Neither white space nor the opening of a comment. -/
structure Solid (ch : UInt8) (s : Bytes) : Prop where
  blank : isBlank ch = false
  hash : ch ≠ '#'.toUInt8
  slash : ch = '/'.toUInt8 → s.head? ≠ some '*'.toUInt8 ∧ s.head? ≠ some '/'.toUInt8

theorem skipStep_solid {g : Gap} {ch : UInt8} {s : Bytes} (hrest : g.rest = ch :: s)
    (h : Solid ch s) : skipStep g = .inr (g, none) := by
  have h1 : ¬ (ch = '/'.toUInt8 ∧ s.head? = some '*'.toUInt8) := fun hc => (h.slash hc.1).1 hc.2
  have h2 : ¬ (ch = '/'.toUInt8 ∧ s.head? = some '/'.toUInt8) := fun hc => (h.slash hc.1).2 hc.2
  rw [skipStep, hrest]
  dsimp only
  rw [h.blank, if_neg Bool.false_ne_true, if_neg h.hash, if_neg h1, if_neg h2]

theorem skip_solid {g : Gap} {ch : UInt8} {s : Bytes} (hrest : g.rest = ch :: s)
    (h : Solid ch s) : skipWhitespaceAndComments g = (g, none) :=
  run_inr (skipStep_solid hrest h)

theorem skip_nil {g : Gap} (hrest : g.rest = []) : skipWhitespaceAndComments g = (g, none) := by
  refine run_inr ?_
  rw [skipStep, hrest]

theorem skip_blank {g : Gap} {ch : UInt8} {s : Bytes} (hrest : g.rest = ch :: s)
    (h : isBlank ch = true) :
    skipWhitespaceAndComments g = skipWhitespaceAndComments { g with rest := s } := by
  refine run_inl skipStep_dec ?_
  rw [skipStep, hrest]
  dsimp only
  rw [if_pos h]

theorem skip_hash {g : Gap} {s : Bytes} (hrest : g.rest = '#'.toUInt8 :: s) :
    skipWhitespaceAndComments g = skipWhitespaceAndComments { g with rest := skipLine s } := by
  refine run_inl skipStep_dec ?_
  rw [skipStep, hrest]
  dsimp only
  rw [if_neg (by decide), if_pos rfl]

theorem skip_lineComment {g : Gap} {s : Bytes}
    (hrest : g.rest = '/'.toUInt8 :: '/'.toUInt8 :: s) :
    skipWhitespaceAndComments g
      = skipWhitespaceAndComments { g with rest := skipLine ('/'.toUInt8 :: s) } := by
  refine run_inl skipStep_dec ?_
  rw [skipStep, hrest]
  dsimp only
  rw [if_neg (by decide), if_neg (by decide), if_neg (by simp; decide), if_pos ⟨rfl, rfl⟩]

theorem skip_blockComment {g : Gap} {s content after : Bytes}
    (hrest : g.rest = '/'.toUInt8 :: '*'.toUInt8 :: s)
    (hclose : splitClose s = some (content, after)) :
    skipWhitespaceAndComments g
      = skipWhitespaceAndComments ({ g with rest := after }.addComment content) := by
  refine run_inl skipStep_dec ?_
  rw [skipStep, hrest]
  dsimp only
  rw [if_neg (by decide), if_neg (by decide), if_pos ⟨rfl, rfl⟩, List.tail_cons, hclose]

theorem skip_unterminated {g : Gap} {s : Bytes}
    (hrest : g.rest = '/'.toUInt8 :: '*'.toUInt8 :: s) (hclose : splitClose s = none) :
    skipWhitespaceAndComments g
      = ({ g with rest := [] }, some ('/'.toUInt8 :: '*'.toUInt8 :: s)) := by
  refine run_inr ?_
  rw [skipStep, hrest]
  dsimp only
  rw [if_neg (by decide), if_neg (by decide), if_pos ⟨rfl, rfl⟩, List.tail_cons, hclose]

/-! ## Brackets -/

/-- Two gap states that skip to the same place go on alike. -/
theorem skipGap_congr {g g' : Gap}
    (h : skipWhitespaceAndComments g = skipWhitespaceAndComments g') : skipGap g = skipGap g' := by
  have hstep : gapStep g = gapStep g' := by rw [gapStep, gapStep, h]
  cases hs : gapStep g' with
  | inr b => 
    rw [hs] at hstep
    exact (run_inr hstep).trans (run_inr hs).symm
  | inl g1 =>
    rw [hs] at hstep
    exact (run_inl gapStep_dec hstep).trans (run_inl gapStep_dec hs).symm

theorem skipGap_blank {g : Gap} {ch : UInt8} {s : Bytes} (hrest : g.rest = ch :: s)
    (h : isBlank ch = true) : skipGap g = skipGap { g with rest := s } :=
  skipGap_congr (skip_blank hrest h)

theorem solid_bracket {ch : UInt8} (h : isBracket ch = true) (s : Bytes) : Solid ch s := by
  rw [isBracket, Bool.or_eq_true, beq_iff_eq, beq_iff_eq] at h
  rcases h with rfl | rfl
  · exact ⟨by decide, by decide, fun h => absurd h (by decide)⟩
  · exact ⟨by decide, by decide, fun h => absurd h (by decide)⟩

/-- The gap state behind an opening bracket. -/
def Gap.opened (g : Gap) (rest : Bytes) : Gap :=
  { g with
    rest
    sawOpenAtZero := g.sawOpenAtZero || g.bracketDepth == 0
    bracketDepth := g.bracketDepth + 1 }

/-- The gap state behind a closing bracket. -/
def Gap.closed (g : Gap) (rest : Bytes) : Gap :=
  if 0 < g.bracketDepth then
    { g with
      rest
      bracketDepth := g.bracketDepth - 1
      gapClosed := true
      gapLoss := g.gapLoss || (g.bracketDepth - 1 == 0 && g.sawOpenAtZero) }
  else { g with rest, gapLoss := true }

theorem skipGap_open {g : Gap} {s : Bytes} (hrest : g.rest = '['.toUInt8 :: s)
    (h : tryBracketedEndpointLiteral s = none) : skipGap g = skipGap (Gap.opened g s) := by
  refine run_inl gapStep_dec ?_
  rw [gapStep, skip_solid hrest (solid_bracket (by decide) s)]
  dsimp only
  rw [hrest]
  dsimp only
  rw [if_pos rfl, h]
  rfl

theorem skipGap_close {g : Gap} {s : Bytes} (hrest : g.rest = ']'.toUInt8 :: s) :
    skipGap g = skipGap (Gap.closed g s) := by
  refine run_inl gapStep_dec ?_
  rw [gapStep, skip_solid hrest (solid_bracket (by decide) s)]
  dsimp only
  rw [hrest]
  dsimp only
  rw [if_neg (by decide), if_pos rfl, Gap.closed]
  split_ifs <;> rfl

theorem skipGap_literal {g : Gap} {s value after : Bytes} (hrest : g.rest = '['.toUInt8 :: s)
    (h : tryBracketedEndpointLiteral s = some (value, after)) :
    skipGap g = ({ g with rest := after }, .literal ('['.toUInt8 :: s) value) := by
  refine run_inr ?_
  rw [gapStep, skip_solid hrest (solid_bracket (by decide) s)]
  dsimp only
  rw [hrest]
  dsimp only
  rw [if_pos rfl, h]

theorem skipGap_token {g : Gap} {ch : UInt8} {s : Bytes} (hrest : g.rest = ch :: s)
    (h : Solid ch s) (hb : isBracket ch = false) : skipGap g = (g, .token) := by
  rw [isBracket, Bool.or_eq_false_iff, beq_eq_false_iff_ne, beq_eq_false_iff_ne] at hb
  refine run_inr ?_
  rw [gapStep, skip_solid hrest h]
  dsimp only
  rw [hrest]
  dsimp only
  rw [if_neg hb.1, if_neg hb.2]

theorem skipGap_nil {g : Gap} (hrest : g.rest = []) : skipGap g = (g, .eof) := by
  refine run_inr ?_
  rw [gapStep, skip_nil hrest]
  dsimp only
  rw [hrest]

/-! ## Endpoint literals -/

/-- An endpoint literal `[<addr>]:port`. -/
def endpointLiteral (addr port : Bytes) : Bytes :=
  '['.toUInt8 :: (addr ++ ']'.toUInt8 :: ':'.toUInt8 :: port)

/-- What the lexer accepts as an endpoint literal. -/
theorem tryBracketedEndpointLiteral_split {s value after : Bytes}
    (h : tryBracketedEndpointLiteral s = some (value, after)) :
    ∃ addr port, addr ≠ [] ∧ (∀ b ∈ addr, isIdentChar b = true)
      ∧ (∀ b ∈ port, isIdentChar b = true) ∧ (∀ b ∈ after.head?, isIdentChar b = false)
      ∧ s = addr ++ ']'.toUInt8 :: ':'.toUInt8 :: (port ++ after)
      ∧ value = endpointLiteral addr port := by
  rw [tryBracketedEndpointLiteral] at h
  split_ifs at h with h1 h2 h3
  obtain ⟨rfl, rfl⟩ := Prod.mk.inj (Option.some.inj h)
  obtain ⟨c, hc⟩ := List.head?_eq_some_iff.mp (not_not.mp h2)
  rw [hc, List.tail_cons] at h3 ⊢
  obtain ⟨t, rfl⟩ := List.head?_eq_some_iff.mp (not_not.mp h3)
  have hcolon : isIdentChar ':'.toUInt8 = true := by decide
  rw [List.takeWhile_cons_of_pos hcolon, List.dropWhile_cons_of_pos hcolon]
  refine ⟨s.takeWhile isIdentChar, t.takeWhile isIdentChar, h1,
    fun b hb => List.mem_takeWhile_imp hb, fun b hb => List.mem_takeWhile_imp hb, ?_, ?_, rfl⟩
  · intro b hb
    have hnot := List.head?_dropWhile_not isIdentChar t
    rw [Option.mem_def.mp hb] at hnot
    exact hnot
  · rw [List.takeWhile_append_dropWhile, ← hc, List.takeWhile_append_dropWhile]

/-- What the lexer must accept as one. -/
theorem tryBracketedEndpointLiteral_eq {addr port after : Bytes} (hne : addr ≠ [])
    (haddr : ∀ b ∈ addr, isIdentChar b = true) (hport : ∀ b ∈ port, isIdentChar b = true)
    (hafter : ∀ b ∈ after.head?, isIdentChar b = false) :
    tryBracketedEndpointLiteral (addr ++ ']'.toUInt8 :: ':'.toUInt8 :: (port ++ after))
      = some (endpointLiteral addr port, after) := by
  have hclose : ∀ s : Bytes, (']'.toUInt8 :: s).takeWhile isIdentChar = [] :=
    fun s => List.takeWhile_cons_of_neg (by decide)
  have hclose' : ∀ s : Bytes, (']'.toUInt8 :: s).dropWhile isIdentChar = ']'.toUInt8 :: s :=
    fun s => List.dropWhile_cons_of_neg (by decide)
  have hstop : after.takeWhile isIdentChar = [] ∧ after.dropWhile isIdentChar = after := by
    cases after with
    | nil => exact ⟨rfl, rfl⟩
    | cons b t =>
      have hb : ¬ isIdentChar b = true := Bool.eq_false_iff.mp (hafter b rfl)
      exact ⟨List.takeWhile_cons_of_neg hb, List.dropWhile_cons_of_neg hb⟩
  have hport' : ∀ b ∈ ':'.toUInt8 :: port, isIdentChar b = true := by
    intro b hb
    rcases List.mem_cons.mp hb with rfl | hb
    · decide
    · exact hport b hb
  have htake : (':'.toUInt8 :: (port ++ after)).takeWhile isIdentChar = ':'.toUInt8 :: port := by
    rw [← List.cons_append, List.takeWhile_append_of_pos hport', hstop.1, List.append_nil]
  have hdrop : (':'.toUInt8 :: (port ++ after)).dropWhile isIdentChar = after := by
    rw [← List.cons_append, List.dropWhile_append_of_pos hport', hstop.2]
  rw [tryBracketedEndpointLiteral, List.takeWhile_append_of_pos haddr,
    List.dropWhile_append_of_pos haddr, hclose, hclose', List.append_nil, if_neg hne,
    if_neg (fun h => h rfl), if_neg (fun h => h rfl), List.tail_cons, htake, hdrop]
  simp only [endpointLiteral, List.cons_append]

/-! ## The token behind a gap -/

/-- The result of `Next` from a gap state on. -/
def scanGap (g : Gap) : Scan := finish (skipGap g)

theorem scan_eq_scanGap (d : ℕ) (s : Bytes) : scan d s = scanGap (Gap.start d s) := rfl

theorem scanGap_blank {g : Gap} {ch : UInt8} {s : Bytes} (hrest : g.rest = ch :: s)
    (h : isBlank ch = true) : scanGap g = scanGap { g with rest := s } := by
  rw [scanGap, skipGap_blank hrest h, scanGap]

theorem scanGap_blanks {blanks : Bytes} (h : ∀ c ∈ blanks, isBlank c = true) (g : Gap) (s : Bytes) :
    scanGap { g with rest := blanks ++ s } = scanGap { g with rest := s } := by
  induction blanks with
  | nil => rfl
  | cons c blanks ih =>
    rw [← ih fun c hc => h c (List.mem_cons_of_mem _ hc)]
    exact scanGap_blank rfl (h c List.mem_cons_self)

theorem scanGap_token {g : Gap} {ch : UInt8} {s : Bytes} (hrest : g.rest = ch :: s)
    (h : Solid ch s) (hb : isBracket ch = false) {type : TokenType} {value rest : Bytes}
    (hread : readToken g.bracketDepth ch s = (type, value, rest)) :
    scanGap g = { type, value, start := ch :: s, gap := { g with rest }, marks := some g.inBracket }
    := by
  rw [scanGap, skipGap_token hrest h hb, finish, hrest]
  dsimp only
  rw [hread]

theorem scan_nil (d : ℕ) : (scan d []).type = .eof := by
  rw [scan, skipGap_nil rfl]
  rfl

/-! ### Words -/

/-- Identifier bytes differ from every byte that is not one. -/
theorem isIdentChar_ne {c x : UInt8} (hc : isIdentChar c = true) (hx : isIdentChar x = false) :
    c ≠ x := by
  rintro rfl
  rw [hc] at hx
  cases hx

theorem isIdentChar_not_blank {c : UInt8} (hc : isIdentChar c = true) : isBlank c = false := by
  simp only [isBlank, Bool.or_eq_false_iff, beq_eq_false_iff_ne]
  exact ⟨⟨⟨isIdentChar_ne hc (by decide), isIdentChar_ne hc (by decide)⟩,
    isIdentChar_ne hc (by decide)⟩, isIdentChar_ne hc (by decide)⟩

theorem isIdentChar_not_bracket {c : UInt8} (hc : isIdentChar c = true) : isBracket c = false := by
  simp only [isBracket, Bool.or_eq_false_iff, beq_eq_false_iff_ne]
  exact ⟨isIdentChar_ne hc (by decide), isIdentChar_ne hc (by decide)⟩

/-- A text that opens a comment. -/
def opensComment (s : Bytes) : Bool :=
  s.head? == some '/'.toUInt8 && (s.tail.head? == some '*'.toUInt8 || s.tail.head? == some '/'.toUInt8)

theorem solid_ident {c : UInt8} {s : Bytes} (hc : isIdentChar c = true)
    (h : opensComment (c :: s) = false) : Solid c s := by
  refine ⟨isIdentChar_not_blank hc, isIdentChar_ne hc (by decide), fun hslash => ?_⟩
  rw [opensComment, hslash] at h
  simpa using h

theorem readToken_ident {d : ℕ} {c : UInt8} {s : Bytes} (hc : isIdentChar c = true) :
    readToken d c s = readIdentifier d (c :: s) := by
  rw [readToken, if_neg (isIdentChar_ne hc (by decide)), if_neg (isIdentChar_ne hc (by decide)),
    if_neg (isIdentChar_ne hc (by decide)), if_neg (isIdentChar_ne hc (by decide)),
    if_neg (isIdentChar_ne hc (by decide)), if_pos hc]

/-- A text at which a word at depth `d` ends. -/
def StopsWord (d : ℕ) (tail : Bytes) : Prop := ∀ b ∈ tail.head?, isWordByte d b = false

theorem readIdentifier_append {d : ℕ} {w tail : Bytes} (hw : ∀ b ∈ w, isWordByte d b = true)
    (htail : StopsWord d tail) : readIdentifier d (w ++ tail) = (.identifier, w, tail) := by
  have htake : tail.takeWhile (isWordByte d) = [] := by
    cases tail with
    | nil => rfl
    | cons b t =>
      exact List.takeWhile_cons_of_neg (Bool.not_eq_true _ ▸ htail b rfl)
  have hdrop : tail.dropWhile (isWordByte d) = tail := by
    cases tail with
    | nil => rfl
    | cons b t =>
      exact List.dropWhile_cons_of_neg (Bool.not_eq_true _ ▸ htail b rfl)
  rw [readIdentifier, List.takeWhile_append_of_pos hw, List.dropWhile_append_of_pos hw, htake,
    hdrop, List.append_nil]

/-- A bare word is read up to the first byte that cannot belong to it. -/
theorem scanGap_word {g : Gap} {c : UInt8} {w tail : Bytes}
    (hrest : g.rest = c :: (w ++ tail)) (hc : isIdentChar c = true)
    (hopen : opensComment (c :: (w ++ tail)) = false)
    (hw : ∀ b ∈ w, isWordByte g.bracketDepth b = true) (htail : StopsWord g.bracketDepth tail) :
    scanGap g = { type := .identifier, value := c :: w, start := c :: (w ++ tail)
                  gap := { g with rest := tail }, marks := some g.inBracket } := by
  refine scanGap_token hrest (solid_ident hc hopen) (isIdentChar_not_bracket hc) ?_
  rw [readToken_ident hc]
  refine readIdentifier_append (w := c :: w) ?_ htail
  intro b hb
  rcases List.mem_cons.mp hb with rfl | hb
  · rw [isWordByte, hc]; rfl
  · exact hw b hb

/-- A quoted string. -/
theorem scanGap_string {g : Gap} {s value tail : Bytes} (hrest : g.rest = '"'.toUInt8 :: s)
    (hread : readStringLoop s = some (value, tail)) :
    scanGap g = { type := .string, value, start := '"'.toUInt8 :: s
                  gap := { g with rest := tail }, marks := some g.inBracket } := by
  refine scanGap_token hrest ⟨by decide, by decide, fun h => absurd h (by decide)⟩ (by decide) ?_
  have h : readString s = (.string, value, tail) := by rw [readString, hread]
  rw [← h]
  rfl

theorem scanGap_literal {g : Gap} {s value after : Bytes} (hrest : g.rest = '['.toUInt8 :: s)
    (h : tryBracketedEndpointLiteral s = some (value, after)) :
    scanGap g = { type := .identifier, value, start := '['.toUInt8 :: s
                  gap := { g with rest := after }, marks := some g.inBracket } := by
  rw [scanGap, skipGap_literal hrest h]
  rfl

/-- The three characters of punctuation. -/
theorem scanGap_semicolon {g : Gap} {s : Bytes} (hrest : g.rest = ';'.toUInt8 :: s) :
    scanGap g = { type := .semicolon, value := bytes ";", start := ';'.toUInt8 :: s
                  gap := { g with rest := s }, marks := some g.inBracket } :=
  scanGap_token hrest ⟨by decide, by decide, fun h => absurd h (by decide)⟩ (by decide) rfl

@[inherit_doc scanGap_semicolon]
theorem scanGap_lBrace {g : Gap} {s : Bytes} (hrest : g.rest = '\x7b'.toUInt8 :: s) :
    scanGap g = { type := .lBrace, value := bytes "\x7b", start := '\x7b'.toUInt8 :: s
                  gap := { g with rest := s }, marks := some g.inBracket } :=
  scanGap_token hrest ⟨by decide, by decide, fun h => absurd h (by decide)⟩ (by decide) rfl

@[inherit_doc scanGap_semicolon]
theorem scanGap_rBrace {g : Gap} {s : Bytes} (hrest : g.rest = '\x7d'.toUInt8 :: s) :
    scanGap g = { type := .rBrace, value := bytes "\x7d", start := '\x7d'.toUInt8 :: s
                  gap := { g with rest := s }, marks := some g.inBracket } :=
  scanGap_token hrest ⟨by decide, by decide, fun h => absurd h (by decide)⟩ (by decide) rfl

end Xpf.ConfigLexing
