/-
`ConfigTokens.lean` -- the token sequence of a text, read off byte by byte.

`Next` keeps more state in a gap than the tokens depend on: the comment it has collected
and what it has seen of brackets. Two gap states with the same text and the same depth
(`SameGap`) find the same token, so `tokens` satisfies one equation for each thing a text
can start with, and a text can be compared with an edited copy of itself from the left.
-/
import Xpf.ConfigLexing

set_option autoImplicit false

namespace Xpf.ConfigTokens

open Xpf.Loop Xpf.GoStrings Xpf.ConfigLexer Xpf.ConfigLexing

/-! ## What a token depends on -/

/-- Gap states that differ only in what the tokens do not depend on. -/
def SameGap (g g' : Gap) : Prop := g.rest = g'.rest ∧ g.bracketDepth = g'.bracketDepth

/-- Scans that found the same token. -/
structure SameScan (t t' : Scan) : Prop where
  type : t.type = t'.type
  value : t.value = t'.value
  start : t.start = t'.start
  rest : t.gap.rest = t'.gap.rest
  depth : t.gap.bracketDepth = t'.gap.bracketDepth

theorem SameScan.trans {t t' t'' : Scan} (h : SameScan t t') (h' : SameScan t' t'') :
    SameScan t t'' :=
  ⟨h.type.trans h'.type, h.value.trans h'.value, h.start.trans h'.start, h.rest.trans h'.rest,
    h.depth.trans h'.depth⟩

theorem addComment_same {g g' : Gap} (h : SameGap g g') (content : Bytes) :
    SameGap (g.addComment content) (g'.addComment content) := by
  have hdepth : ∀ g : Gap, (g.addComment content).bracketDepth = g.bracketDepth := by
    intro g
    rw [Gap.addComment]
    split_ifs <;> rfl
  refine ⟨?_, ?_⟩
  · rw [addComment_rest, addComment_rest, h.1]
  · rw [hdepth, hdepth, h.2]

theorem skip_same {g g' : Gap} (h : SameGap g g') :
    SameGap (skipWhitespaceAndComments g).1 (skipWhitespaceAndComments g').1
      ∧ (skipWhitespaceAndComments g).2 = (skipWhitespaceAndComments g').2 := by
  refine run_rel skipStep_dec (R := SameGap) (Q := fun r r' => SameGap r.1 r'.1 ∧ r.2 = r'.2)
    ?_ g g' h
  intro g g' h
  rw [skipStep, skipStep, ← h.1]
  cases hrest : g.rest with
  | nil => exact .inr ⟨_, _, rfl, rfl, h, rfl⟩
  | cons ch s =>
    dsimp only
    by_cases h1 : isBlank ch = true
    · rw [if_pos h1, if_pos h1]
      exact .inl ⟨_, _, rfl, rfl, rfl, h.2⟩
    by_cases h2 : ch = '#'.toUInt8
    · rw [if_neg h1, if_neg h1, if_pos h2, if_pos h2]
      exact .inl ⟨_, _, rfl, rfl, rfl, h.2⟩
    by_cases h3 : ch = '/'.toUInt8 ∧ s.head? = some '*'.toUInt8
    · rw [if_neg h1, if_neg h1, if_neg h2, if_neg h2, if_pos h3, if_pos h3]
      cases hclose : splitClose s.tail with
      | none => exact .inr ⟨_, _, rfl, rfl, ⟨rfl, h.2⟩, rfl⟩
      | some r =>
        have hrest : SameGap { g with rest := r.2 } { g' with rest := r.2 } := ⟨rfl, h.2⟩
        exact .inl ⟨_, _, rfl, rfl, addComment_same hrest r.1⟩
    by_cases h4 : ch = '/'.toUInt8 ∧ s.head? = some '/'.toUInt8
    · rw [if_neg h1, if_neg h1, if_neg h2, if_neg h2, if_neg h3, if_neg h3, if_pos h4, if_pos h4]
      exact .inl ⟨_, _, rfl, rfl, rfl, h.2⟩
    · rw [if_neg h1, if_neg h1, if_neg h2, if_neg h2, if_neg h3, if_neg h3, if_neg h4, if_neg h4]
      exact .inr ⟨_, _, rfl, rfl, h, rfl⟩

theorem skipGap_same {g g' : Gap} (h : SameGap g g') :
    SameGap (skipGap g).1 (skipGap g').1 ∧ (skipGap g).2 = (skipGap g').2 := by
  refine run_rel gapStep_dec (R := SameGap) (Q := fun r r' => SameGap r.1 r'.1 ∧ r.2 = r'.2)
    ?_ g g' h
  intro g g' h
  have hskip := skip_same h
  rw [gapStep, gapStep]
  cases hg : skipWhitespaceAndComments g with
  | mk g1 e =>
  cases hg' : skipWhitespaceAndComments g' with
  | mk g1' e' =>
    rw [hg, hg'] at hskip
    obtain ⟨hsame, rfl⟩ : SameGap g1 g1' ∧ e = e' := hskip
    cases e with
    | some start => exact .inr ⟨_, _, rfl, rfl, hsame, rfl⟩
    | none =>
      dsimp only
      rw [← hsame.1]
      cases hrest : g1.rest with
      | nil => exact .inr ⟨_, _, rfl, rfl, hsame, rfl⟩
      | cons c s =>
        dsimp only
        by_cases h1 : c = '['.toUInt8
        · rw [if_pos h1, if_pos h1]
          cases hlit : tryBracketedEndpointLiteral s with
          | some r => exact .inr ⟨_, _, rfl, rfl, ⟨rfl, hsame.2⟩, rfl⟩
          | none => exact .inl ⟨_, _, rfl, rfl, rfl, congrArg (· + 1) hsame.2⟩
        by_cases h2 : c = ']'.toUInt8
        · rw [if_neg h1, if_neg h1, if_pos h2, if_pos h2, ← hsame.2]
          split_ifs
          · exact .inl ⟨_, _, rfl, rfl, rfl, rfl⟩
          · exact .inl ⟨_, _, rfl, rfl, rfl, rfl⟩
        · rw [if_neg h1, if_neg h1, if_neg h2, if_neg h2]
          exact .inr ⟨_, _, rfl, rfl, hsame, rfl⟩

/-- **The token behind a gap** depends on the text and the depth only. -/
theorem scanGap_same {g g' : Gap} (h : SameGap g g') : SameScan (scanGap g) (scanGap g') := by
  have hskip := skipGap_same h
  rw [scanGap, scanGap]
  generalize skipGap g = r at hskip ⊢
  generalize skipGap g' = r' at hskip ⊢
  obtain ⟨g1, e⟩ := r
  obtain ⟨g1', e'⟩ := r'
  obtain ⟨hsame, rfl⟩ : SameGap g1 g1' ∧ e = e' := hskip
  cases e with
  | unterminated start => exact ⟨rfl, rfl, rfl, hsame.1, hsame.2⟩
  | eof => exact ⟨rfl, rfl, hsame.1, hsame.1, hsame.2⟩
  | literal start value => exact ⟨rfl, rfl, rfl, hsame.1, hsame.2⟩
  | token =>
    rw [finish, finish, ← hsame.1, ← hsame.2]
    cases hrest : g1.rest with
    | nil => exact ⟨rfl, rfl, rfl, hsame.1, hsame.2⟩
    | cons ch s => exact ⟨rfl, rfl, rfl, rfl, rfl⟩

/-! ## Gaps

What a gap starts with may be left out. -/

theorem scan_same {d d' : ℕ} {s s' : Bytes} {g : Gap} (h : skipGap (Gap.start d s) = skipGap g)
    (h' : SameGap g (Gap.start d' s')) : SameScan (scan d s) (scan d' s') := by
  have hscan : scan d s = scanGap g := by rw [scan, h, scanGap]
  rw [hscan, scan_eq_scanGap]
  exact scanGap_same h'

theorem scan_blank (d : ℕ) {ch : UInt8} (s : Bytes) (h : isBlank ch = true) :
    SameScan (scan d (ch :: s)) (scan d s) :=
  scan_same (skipGap_blank rfl h) ⟨rfl, rfl⟩

theorem scan_hash (d : ℕ) (s : Bytes) :
    SameScan (scan d ('#'.toUInt8 :: s)) (scan d (skipLine s)) :=
  scan_same (skipGap_congr (skip_hash rfl)) ⟨rfl, rfl⟩

theorem scan_lineComment (d : ℕ) (s : Bytes) :
    SameScan (scan d ('/'.toUInt8 :: '/'.toUInt8 :: s)) (scan d (skipLine ('/'.toUInt8 :: s))) :=
  scan_same (skipGap_congr (skip_lineComment rfl)) ⟨rfl, rfl⟩

theorem scan_blockComment (d : ℕ) {s content after : Bytes}
    (h : splitClose s = some (content, after)) :
    SameScan (scan d ('/'.toUInt8 :: '*'.toUInt8 :: s)) (scan d after) := by
  refine scan_same (skipGap_congr (skip_blockComment rfl h)) ?_
  refine ⟨addComment_rest _ _, ?_⟩
  rw [Gap.addComment]
  split_ifs <;> rfl

theorem scan_open (d : ℕ) {s : Bytes} (h : tryBracketedEndpointLiteral s = none) :
    SameScan (scan d ('['.toUInt8 :: s)) (scan (d + 1) s) :=
  scan_same (skipGap_open rfl h) ⟨rfl, rfl⟩

theorem scan_close (d : ℕ) (s : Bytes) :
    SameScan (scan d (']'.toUInt8 :: s)) (scan (d - 1) s) := by
  refine scan_same (skipGap_close rfl) ?_
  rw [Gap.closed]
  split_ifs with h
  · exact ⟨rfl, rfl⟩
  · refine ⟨rfl, ?_⟩
    have hzero : d = 0 := Nat.eq_zero_of_not_pos h
    rw [hzero]
    rfl

theorem tokens_congr {d d' : ℕ} {s s' : Bytes} (h : SameScan (scan d s) (scan d' s')) :
    tokens d s = tokens d' s' := by
  by_cases heof : (scan d s).type = .eof
  · rw [tokens_eof heof, tokens_eof (h.type ▸ heof)]
  · have heof' : (scan d' s').type ≠ .eof := h.type ▸ heof
    rw [tokens_cons heof, tokens_cons heof', h.type, h.value, h.rest, h.depth]

theorem tokens_blanks (d : ℕ) {blanks : Bytes} (s : Bytes) (h : ∀ c ∈ blanks, isBlank c = true) :
    tokens d (blanks ++ s) = tokens d s := by
  induction blanks with
  | nil => rfl
  | cons c blanks ih =>
    rw [List.cons_append, tokens_congr (scan_blank d _ (h c List.mem_cons_self)),
      ih fun c hc => h c (List.mem_cons_of_mem _ hc)]

/-! ## Tokens -/

theorem tokens_of_scan {d : ℕ} {s : Bytes} {t : Scan} (h : scan d s = t) (hne : t.type ≠ .eof) :
    tokens d s = (t.type, t.value) :: tokens t.gap.bracketDepth t.gap.rest := by
  rw [tokens_cons (by rw [h]; exact hne), h]

/-- An endpoint literal. -/
theorem scan_literal (d : ℕ) {s value after : Bytes}
    (h : tryBracketedEndpointLiteral s = some (value, after)) :
    scan d ('['.toUInt8 :: s)
      = { type := .identifier, value, start := '['.toUInt8 :: s
          gap := Gap.start d after, marks := some (decide (0 < d) || false) } :=
  scanGap_literal rfl h

/-- A string. -/
theorem scan_string (d : ℕ) {s value rest : Bytes} (h : readStringLoop s = some (value, rest)) :
    scan d ('"'.toUInt8 :: s)
      = { type := .string, value, start := '"'.toUInt8 :: s
          gap := Gap.start d rest, marks := some (decide (0 < d) || false) } :=
  scanGap_string rfl h

/-- A word, up to the first byte that cannot belong to it. -/
theorem scan_word (d : ℕ) {c : UInt8} {w tail : Bytes} (hc : isIdentChar c = true)
    (hopen : opensComment (c :: (w ++ tail)) = false) (hw : ∀ b ∈ w, isWordByte d b = true)
    (htail : StopsWord d tail) :
    scan d (c :: (w ++ tail))
      = { type := .identifier, value := c :: w, start := c :: (w ++ tail)
          gap := Gap.start d tail, marks := some (decide (0 < d) || false) } :=
  scanGap_word rfl hc hopen hw htail

/-- The bytes that are tokens of their own. -/
def punctuation (c : UInt8) : Option TokenType :=
  if c = '\x7b'.toUInt8 then some .lBrace
  else if c = '\x7d'.toUInt8 then some .rBrace
  else if c = ';'.toUInt8 then some .semicolon
  else if c = '|'.toUInt8 then some .pipe
  else none

/-- A token of punctuation. -/
theorem scan_punctuation (d : ℕ) {c : UInt8} (s : Bytes) {type : TokenType}
    (h : punctuation c = some type) :
    scan d (c :: s)
        = { type, value := [c], start := c :: s
            gap := Gap.start d s, marks := some (decide (0 < d) || false) }
      ∧ type ≠ .eof ∧ type ≠ .error ∧ type ≠ .identifier ∧ type ≠ .string := by
  rw [punctuation] at h
  have htoken : ∀ {c : UInt8}, isBlank c = false → c ≠ '#'.toUInt8 → c ≠ '/'.toUInt8 →
      isBracket c = false → readToken d c s = (type, [c], s) →
      scan d (c :: s) = { type, value := [c], start := c :: s
                          gap := Gap.start d s, marks := some (decide (0 < d) || false) } :=
    fun h1 h2 h3 h4 h5 => scanGap_token rfl ⟨h1, h2, fun h => absurd h h3⟩ h4 h5
  split_ifs at h with h1 h2 h3 h4
  all_goals obtain rfl := Option.some.inj h
  · subst h1
    exact ⟨htoken (by decide) (by decide) (by decide) (by decide) rfl, (by rintro ⟨⟩), (by rintro ⟨⟩), (by rintro ⟨⟩), (by rintro ⟨⟩)⟩
  · subst h2
    exact ⟨htoken (by decide) (by decide) (by decide) (by decide) rfl, (by rintro ⟨⟩), (by rintro ⟨⟩), (by rintro ⟨⟩), (by rintro ⟨⟩)⟩
  · subst h3
    exact ⟨htoken (by decide) (by decide) (by decide) (by decide) rfl, (by rintro ⟨⟩), (by rintro ⟨⟩), (by rintro ⟨⟩), (by rintro ⟨⟩)⟩
  · subst h4
    exact ⟨htoken (by decide) (by decide) (by decide) (by decide) rfl, (by rintro ⟨⟩), (by rintro ⟨⟩), (by rintro ⟨⟩), (by rintro ⟨⟩)⟩

theorem scan_unterminated (d : ℕ) {s : Bytes} (h : splitClose s = none) :
    (scan d ('/'.toUInt8 :: '*'.toUInt8 :: s)).type = .error := by
  have hskip := skip_unterminated (g := Gap.start d ('/'.toUInt8 :: '*'.toUInt8 :: s)) rfl h
  rw [scan, skipGap, run_inr (b := ({ Gap.start d ('/'.toUInt8 :: '*'.toUInt8 :: s) with
    rest := [] }, .unterminated ('/'.toUInt8 :: '*'.toUInt8 :: s)))]
  · rfl
  · rw [gapStep, hskip]

theorem scan_unterminatedString (d : ℕ) {s : Bytes} (h : readStringLoop s = none) :
    (scan d ('"'.toUInt8 :: s)).type = .error := by
  have hread : readToken d '"'.toUInt8 s = (.error, bytes "unterminated string", []) := by
    have hstring : readString s = (.error, bytes "unterminated string", []) := by rw [readString, h]
    exact hstring
  have hscan := scanGap_token (g := Gap.start d ('"'.toUInt8 :: s)) rfl
    ⟨by decide, by decide, fun h => absurd h (by decide)⟩ (by decide) hread
  rw [scan_eq_scanGap, hscan]

/-- Anything else is an error. -/
theorem scan_unexpected (d : ℕ) {c : UInt8} (s : Bytes) (hsolid : Solid c s)
    (hbracket : isBracket c = false) (hpunct : punctuation c = none) (hquote : c ≠ '"'.toUInt8)
    (hident : isIdentChar c = false) : (scan d (c :: s)).type = .error := by
  rw [punctuation] at hpunct
  split_ifs at hpunct with h1 h2 h3 h4
  have hread : readToken d c s = (.error, bytes "unexpected character: " ++ encodeByte c, s) := by
    rw [readToken, if_neg h1, if_neg h2, if_neg h3, if_neg h4, if_neg hquote, hident,
      if_neg Bool.false_ne_true]
  have hscan := scanGap_token (g := Gap.start d (c :: s)) rfl hsolid hbracket hread
  rw [scan_eq_scanGap, hscan]

end Xpf.ConfigTokens
