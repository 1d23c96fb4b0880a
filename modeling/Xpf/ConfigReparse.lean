/-
`ConfigReparse.lean` -- the parser run forward over rendered text.

Rendered text is regular: keys and list brackets separated by single blanks, a `;` or a
block behind them, one statement a line. This module follows the parser over such text.
`keysLoop_spaced` reads the keys of a statement, `parseStatement_leaf` and
`parseStatement_block` a whole statement, and both are stated as equations between loop
states, so that they can be chained over siblings and used in front of any text.
-/
import Xpf.ConfigGrammar
import Xpf.ConfigLexing

set_option autoImplicit false

namespace Xpf.ConfigReparse

open Xpf.Loop Xpf.GoStrings Xpf.ConfigLexer Xpf.ConfigLexing Xpf.ConfigAst Xpf.ConfigParser
open Xpf.ConfigComment Xpf.ConfigGrammar

/-! ## Keys separated by blanks -/

/-- A text that ends the key in front of it. -/
def Delimited (tail : Bytes) : Prop :=
  tail.head? = some ' '.toUInt8 ∨ tail.head? = some ';'.toUInt8

/-- `text` is read as one key at depth `d`, in front of any delimiter. -/
def KeyText (d : ℕ) (text : Bytes) (key : Lexeme) : Prop :=
  isKey key.1 = true ∧ ∀ (g : Gap) (tail : Bytes), g.bracketDepth = d → Delimited tail →
    g.rest = text ++ tail →
    scanGap g = { type := key.1, value := key.2, start := text ++ tail
                  gap := { g with rest := tail }, marks := some g.inBracket }

theorem isWordByte_false {d : ℕ} {b : UInt8} (h : isIdentChar b = false)
    (hb : isBracket b = false) : isWordByte d b = false := by
  rw [isWordByte, h, hb, Bool.and_false]
  rfl

theorem delimited_stopsWord (d : ℕ) {tail : Bytes} (h : Delimited tail) : StopsWord d tail := by
  intro b hb
  rcases h with h | h
  · rw [h] at hb
    obtain rfl := Option.some.inj hb
    exact isWordByte_false (by decide) (by decide)
  · rw [h] at hb
    obtain rfl := Option.some.inj hb
    exact isWordByte_false (by decide) (by decide)

theorem delimited_opensComment {w tail : Bytes} (hne : w ≠ []) (h : Delimited tail)
    (hopen : opensComment w = false) : opensComment (w ++ tail) = false := by
  match w, hne with
  | [c], _ =>
    rw [opensComment, List.singleton_append, List.tail_cons]
    rcases h with h | h
    · rw [h, Bool.and_eq_false_iff]
      exact .inr (by decide)
    · rw [h, Bool.and_eq_false_iff]
      exact .inr (by decide)
  | c :: c' :: w, _ => exact hopen

/-- A bare word is read as itself. -/
theorem keyText_word (d : ℕ) {w : Bytes} (hne : w ≠ []) (hw : ∀ b ∈ w, isIdentChar b = true)
    (hopen : opensComment w = false) : KeyText d w (.identifier, w) := by
  refine ⟨rfl, fun g tail hdepth htail hrest => ?_⟩
  have hopen' := delimited_opensComment hne htail hopen
  obtain ⟨c, w, rfl⟩ := List.exists_cons_of_ne_nil hne
  refine scanGap_word hrest (hw c List.mem_cons_self) hopen' ?_ (delimited_stopsWord _ htail)
  intro b hb
  rw [isWordByte, hw b (List.mem_cons_of_mem _ hb)]
  rfl

/-- What stands between the blanks of a rendered key path. -/
inductive Part
  | opening
  | closing
  | key (text : Bytes) (key : Lexeme)

/-- The text of a part. -/
def Part.text : Part → Bytes
  | .opening => bytes "["
  | .closing => bytes "]"
  | .key text _ => text

/-- A sequence of parts from one bracket depth to another, each key readable where it
stands. -/
inductive Parts : ℕ → List Part → List Lexeme → ℕ → Prop
  | nil (d : ℕ) : Parts d [] [] d
  | opening {d d' : ℕ} {ps : List Part} {ks : List Lexeme} (rest : Parts (d + 1) ps ks d') :
      Parts d (.opening :: ps) ks d'
  | closing {d d' : ℕ} {ps : List Part} {ks : List Lexeme} (rest : Parts d ps ks d') :
      Parts (d + 1) (.closing :: ps) ks d'
  | key {d d' : ℕ} {ps : List Part} {ks : List Lexeme} {text : Bytes} {k : Lexeme}
      (here : KeyText d text k) (rest : Parts d ps ks d') :
      Parts d (.key text k :: ps) (k :: ks) d'

/-- The parts of a key path, each behind a blank. -/
def spaced (ps : List Part) : Bytes := ps.flatMap fun p => ' '.toUInt8 :: p.text

theorem spaced_cons (p : Part) (ps : List Part) :
    spaced (p :: ps) = ' '.toUInt8 :: (p.text ++ spaced ps) := rfl

theorem delimited_spaced (ps : List Part) {tail : Bytes} (h : Delimited tail) :
    Delimited (spaced ps ++ tail) := by
  cases ps with
  | nil => exact h
  | cons p ps => exact .inl rfl

/-- The depth and the comment of a gap, which is what the parser needs of it. -/
structure GapAt (g : Gap) (d : ℕ) (comment : Bytes) : Prop where
  depth : g.bracketDepth = d
  comment : gapComment g = comment

theorem gapAt_opened {g : Gap} {d : ℕ} {a : Bytes} (h : GapAt g d a) (s : Bytes) :
    GapAt (Gap.opened g s) (d + 1) a := ⟨congrArg (· + 1) h.depth, h.comment⟩

theorem gapAt_closed {g : Gap} {d : ℕ} {a : Bytes} (h : GapAt g (d + 1) a) (s : Bytes) :
    GapAt (Gap.closed g s) d a := by
  have hpos : 0 < g.bracketDepth := by rw [h.depth]; exact Nat.succ_pos d
  rw [Gap.closed, if_pos hpos]
  refine ⟨?_, h.comment⟩
  dsimp only
  rw [h.depth, Nat.add_sub_cancel]

theorem closed_rest (g : Gap) (s : Bytes) : (Gap.closed g s).rest = s := by
  rw [Gap.closed]
  split_ifs <;> rfl

theorem scanGap_opening {g : Gap} {ps : List Part} {tail : Bytes} (htail : Delimited tail)
    (hrest : g.rest = spaced (.opening :: ps) ++ tail) :
    scanGap g = scanGap (Gap.opened g (spaced ps ++ tail)) := by
  have hlit : tryBracketedEndpointLiteral (spaced ps ++ tail) = none := by
    rw [tryBracketedEndpointLiteral]
    refine if_pos ?_
    rcases delimited_spaced ps htail with h | h
    · obtain ⟨t, ht⟩ := List.head?_eq_some_iff.mp h
      rw [ht]; rfl
    · obtain ⟨t, ht⟩ := List.head?_eq_some_iff.mp h
      rw [ht]; rfl
  have hblank : scanGap g = scanGap { g with rest := '['.toUInt8 :: (spaced ps ++ tail) } :=
    scanGap_blank hrest (by decide)
  rw [hblank, scanGap, skipGap_open rfl hlit, scanGap]
  rfl

theorem scanGap_closing {g : Gap} {ps : List Part} {tail : Bytes}
    (hrest : g.rest = spaced (.closing :: ps) ++ tail) :
    scanGap g = scanGap (Gap.closed g (spaced ps ++ tail)) := by
  have hblank : scanGap g = scanGap { g with rest := ']'.toUInt8 :: (spaced ps ++ tail) } :=
    scanGap_blank hrest (by decide)
  rw [hblank, scanGap, skipGap_close rfl, scanGap]
  rfl

/-- What `Next` finds in front of the key tokens `ks`, and of `tail` behind them: the
first key, or whatever the tail starts with. -/
def Finds (t : Scan) (tail a : Bytes) (d' : ℕ) : List Lexeme → Prop
  | [] => ∃ g, GapAt g d' a ∧ g.rest = tail ∧ t = scanGap g
  | k :: ks =>
    ∃ (g : Gap) (d : ℕ) (ps : List Part) (start : Bytes), GapAt g d a
      ∧ g.rest = spaced ps ++ tail ∧ Parts d ps ks d' ∧ isKey k.1 = true
      ∧ t = { type := k.1, value := k.2, start, gap := g, marks := some g.inBracket }

/-- The gap in front of a key path: its brackets change the gap state, the comment
stays. -/
theorem finds_parts {d d' : ℕ} {ps : List Part} {ks : List Lexeme} (h : Parts d ps ks d')
    {tail a : Bytes} (htail : Delimited tail) :
    ∀ g : Gap, GapAt g d a → g.rest = spaced ps ++ tail → Finds (scanGap g) tail a d' ks := by
  induction h with
  | nil d => exact fun g hg hrest => ⟨g, hg, hrest, rfl⟩
  | @opening d d' ps ks rest ih =>
    intro g hg hrest
    rw [scanGap_opening htail hrest]
    exact ih (Gap.opened g (spaced ps ++ tail)) (gapAt_opened hg _) rfl
  | @closing d d' ps ks rest ih =>
    intro g hg hrest
    rw [scanGap_closing hrest]
    exact ih (Gap.closed g (spaced ps ++ tail)) (gapAt_closed hg _) (closed_rest _ _)
  | @key d d' ps ks text k here rest ih =>
    intro g hg hrest
    have hrest' : g.rest = ' '.toUInt8 :: (text ++ (spaced ps ++ tail)) := by
      rw [hrest, spaced_cons, List.cons_append, List.append_assoc]
      rfl
    have hblank := scanGap_blank hrest' (by decide)
    have hkey := here.2 { g with rest := text ++ (spaced ps ++ tail) } (spaced ps ++ tail)
      hg.depth (delimited_spaced ps htail) rfl
    exact ⟨{ g with rest := spaced ps ++ tail }, d, ps, _, ⟨hg.depth, hg.comment⟩, rfl, rest,
      here.1, hblank.trans hkey⟩

theorem start_gapAt (d : ℕ) (s : Bytes) : GapAt (Gap.start d s) d [] := ⟨rfl, rfl⟩

/-- One round of the key loop in front of a key, within the budget. -/
theorem keysStep_key {tail a : Bytes} {d' : ℕ} (htail : Delimited tail) {k : Lexeme}
    {ks : List Lexeme} {st : KeysState} (hfinds : Finds st.parser.lexer.scan tail a d' (k :: ks))
    (hcap : st.parser.nodes + st.keys.length < maxParseNodes) :
    ∃ (tok : KeyTok) (l : Lexer) (sawClose : Bool), (tok.kind, tok.value) = k
      ∧ Finds l.scan tail [] d' ks
      ∧ keysStep st = .inl ⟨{ st.parser with lexer := l }, st.keys ++ [tok], sawClose⟩ := by
  obtain ⟨g, d, ps, start, hg, hrest, hparts, hkey, hscan⟩ := hfinds
  have htype : st.parser.lexer.peek.1.type = k.1 := by rw [peek_type, hscan]
  have hvalue : st.parser.lexer.peek.1.value = k.2 := by rw [peek_value, hscan]
  let l := st.parser.lexer.peek.2.next.2
  have hdepth : l.bracketDepth = d :=
    (congrArg (fun t => t.gap.bracketDepth) hscan).trans hg.depth
  have hrest' : l.rest = spaced ps ++ tail := (congrArg (fun t => t.gap.rest) hscan).trans hrest
  refine ⟨⟨st.parser.lexer.peek.1.value, st.parser.lexer.peek.1.type, l.tokInBracket⟩, l,
    st.sawClose || st.parser.peek.2.lexer.gapClosed || l.gapClosed, Prod.ext htype hvalue, ?_, ?_⟩
  · rw [Lexer.scan, hdepth, hrest', scan_eq_scanGap]
    exact finds_parts hparts htail _ (start_gapAt d _) rfl
  · rw [keysStep]
    dsimp only
    have hcap' : ¬ maxParseNodes ≤ st.parser.peek.2.nodes + st.keys.length := Nat.not_le.mpr hcap
    rw [if_pos (by rw [Parser.peek_fst, htype]; exact hkey), if_neg hcap']
    rfl

/-- The key loop over the keys `ks`, as far as the budget reaches: it goes on in front of
the tail. -/
theorem keysLoop_reads {tail : Bytes} {d' : ℕ} (htail : Delimited tail) :
    ∀ (ks : List Lexeme) (st : KeysState) (a : Bytes),
      Finds st.parser.lexer.scan tail a d' ks →
      st.parser.nodes + st.keys.length + ks.length ≤ maxParseNodes →
      ∃ (toks : List KeyTok) (l : Lexer) (sawClose : Bool) (a' : Bytes), lexemes toks = ks
        ∧ Finds l.scan tail a' d' []
        ∧ keysLoop st
            = keysLoop ⟨{ st.parser with lexer := l }, st.keys ++ toks, sawClose⟩ := by
  intro ks
  induction ks with
  | nil =>
    intro st a hfinds _
    exact ⟨[], st.parser.lexer, st.sawClose, a, rfl, hfinds, by rw [List.append_nil]⟩
  | cons k ks ih =>
    intro st a hfinds hbud
    rw [List.length_cons] at hbud
    obtain ⟨tok, l, sawClose, htok, hfinds', hstep⟩ := keysStep_key htail hfinds (by omega)
    have hlen : (st.keys ++ [tok]).length = st.keys.length + 1 := by simp
    obtain ⟨toks, l', sawClose', a', hlex, hl, hloop⟩ :=
      ih ⟨{ st.parser with lexer := l }, st.keys ++ [tok], sawClose⟩ [] hfinds'
        (by dsimp only; omega)
    refine ⟨tok :: toks, l', sawClose', a', ?_, hl, ?_⟩
    · rw [← hlex, ← htok]
      rfl
    · have hstart : keysLoop st
          = keysLoop ⟨{ st.parser with lexer := l }, st.keys ++ [tok], sawClose⟩ :=
        run_inl keysStep_dec hstep
      rw [hstart, hloop, List.append_assoc]
      rfl

/-- **The keys of a statement.** In front of the keys `ks` and of a tail that starts
with something else, the key loop reads exactly these keys, as far as the budget
reaches, and stops in front of the tail. -/
theorem keysLoop_finds {tail : Bytes} {d' : ℕ} (htail : Delimited tail)
    (hend : ∀ g : Gap, g.bracketDepth = d' → g.rest = tail → isKey (scanGap g).type = false)
    (ks : List Lexeme) (st : KeysState) (a : Bytes) (hfinds : Finds st.parser.lexer.scan tail a d' ks)
    (hbud : st.parser.nodes + st.keys.length + ks.length ≤ maxParseNodes) :
    ∃ (toks : List KeyTok) (l : Lexer) (g : Gap), lexemes toks = ks
      ∧ (keysLoop st).keys = st.keys ++ toks
      ∧ (keysLoop st).parser = { st.parser with lexer := l }
      ∧ l.scan = scanGap g ∧ g.bracketDepth = d' ∧ g.rest = tail := by
  obtain ⟨toks, l, sawClose, a', hlex, ⟨g, hg, hrest, hscan⟩, hloop⟩ :=
    keysLoop_reads htail ks st a hfinds hbud
  let st' : KeysState := ⟨{ st.parser with lexer := l }, st.keys ++ toks, sawClose⟩
  have hstep : keysStep st' = .inr ⟨st'.parser.peek.2, st'.keys,
      st'.sawClose || st'.parser.peek.2.lexer.gapClosed⟩ := by
    rw [keysStep]
    dsimp only
    rw [if_neg]
    rw [Parser.peek_fst, peek_type, hscan, hend g hg.depth hrest]
    rintro ⟨⟩
  refine ⟨toks, l.peek.2, g, hlex, ?_, ?_, ?_, hg.depth, hrest⟩
  · rw [hloop, keysLoop, run_inr hstep]
  · rw [hloop, keysLoop, run_inr hstep]
    rfl
  · rw [peek_scan, hscan]

/-- Past the budget the key loop leaves an error. -/
theorem keysLoop_overBudget {tail : Bytes} {d' : ℕ} (htail : Delimited tail) :
    ∀ (ks : List Lexeme) (st : KeysState) (a : Bytes),
      Finds st.parser.lexer.scan tail a d' ks → st.parser.nodeBudgetExceeded = false →
      st.parser.nodes + st.keys.length ≤ maxParseNodes →
      maxParseNodes < st.parser.nodes + st.keys.length + ks.length →
      (keysLoop st).parser.errors ≠ [] := by
  intro ks
  induction ks with
  | nil =>
    intro st a _ _ hle hlt
    simp only [List.length_nil] at hlt
    omega
  | cons k ks ih =>
    intro st a hfinds hflag hle hlt
    rw [List.length_cons] at hlt
    by_cases hcap : st.parser.nodes + st.keys.length < maxParseNodes
    · obtain ⟨tok, l, sawClose, htok, hfinds', hstep⟩ := keysStep_key htail hfinds hcap
      rw [keysLoop, run_inl keysStep_dec hstep, ← keysLoop]
      refine ih _ [] hfinds' hflag ?_ ?_
      · simp only [List.length_append, List.length_cons, List.length_nil]
        omega
      · simp only [List.length_append, List.length_cons, List.length_nil]
        omega
    · obtain ⟨g, d, ps, start, hg, hrest, hparts, hkey, hscan⟩ := hfinds
      have hkey' : isKey st.parser.peek.1.type = true := by
        rw [Parser.peek_fst, peek_type, hscan]
        exact hkey
      have hcap' : maxParseNodes ≤ st.parser.peek.2.nodes + st.keys.length := Nat.not_lt.mp hcap
      have hf : st.parser.peek.2.nodeBudgetExceeded = false := hflag
      have hstep : keysStep st = .inr ⟨st.parser.peek.2.noteNodeBudget st.parser.peek.1.line
          st.parser.peek.1.column, st.keys, st.sawClose || st.parser.peek.2.lexer.gapClosed⟩ := by
        rw [keysStep]
        dsimp only
        rw [if_pos hkey', if_pos hcap']
      rw [keysLoop, run_inr hstep]
      dsimp only
      rw [Parser.noteNodeBudget, hf, if_neg Bool.false_ne_true]
      simp

/-! ## Statements -/

/-- The tail of a leaf, and of a block. -/
theorem delimited_semicolon (s : Bytes) : Delimited (';'.toUInt8 :: s) := .inr rfl

theorem delimited_blank (s : Bytes) : Delimited (' '.toUInt8 :: s) := .inl rfl

theorem scanGap_blankBrace {g : Gap} {s : Bytes}
    (hrest : g.rest = ' '.toUInt8 :: '\x7b'.toUInt8 :: s) :
    scanGap g = { type := .lBrace, value := bytes "\x7b", start := '\x7b'.toUInt8 :: s
                  gap := { g with rest := s }, marks := some g.inBracket } := by
  rw [scanGap_blank hrest (by decide), scanGap_lBrace rfl]
  rfl

/-- A statement behind its keys, unless it is a lone marker. -/
theorem parseStatement_tail (block : Parser → List Node × Parser) {p : Parser} {k : KeyTok}
    {ks : List KeyTok} (hkeys : (parseKeys p.peek.2).1 = k :: ks)
    (hlone : k.isMarker = true → ks ≠ []) :
    parseStatement block p
      = (some (parseTail block p.peek.2.lexer.lastGapComment (liftMarker (k :: ks)).1
            (parseKeys p.peek.2).2.1 (liftMarker (k :: ks)).2 (parseKeys p.peek.2).2.2).1,
          (parseTail block p.peek.2.lexer.lastGapComment (liftMarker (k :: ks)).1
            (parseKeys p.peek.2).2.1 (liftMarker (k :: ks)).2 (parseKeys p.peek.2).2.2).2) := by
  have hparse : parseKeys p.peek.2
      = (k :: ks, (parseKeys p.peek.2).2.1, (parseKeys p.peek.2).2.2) := by rw [← hkeys]
  rw [parseStatement]
  dsimp only
  rw [hparse, liftMarker]
  dsimp only
  by_cases hm : k.isMarker = true
  · have hempty : ¬ ks.isEmpty = true := fun h => hlone hm (List.isEmpty_iff.mp h)
    rw [if_pos hm, if_neg hempty, if_pos hm]
  · rw [if_neg hm, if_neg hm]

/-- A lone marker is an error. -/
theorem parseStatement_lone {block : Parser → List Node × Parser}
    (hlater : ∀ p, Later p (block p).2) {p : Parser} {k : KeyTok}
    (hkeys : (parseKeys p.peek.2).1 = [k]) (hm : k.isMarker = true) :
    (parseStatement block p).2.errors ≠ [] := by
  have hparse : parseKeys p.peek.2
      = ([k], (parseKeys p.peek.2).2.1, (parseKeys p.peek.2).2.2) := by rw [← hkeys]
  have herr := addError_errors_ne (parseKeys p.peek.2).2.2 p.peek.1.line p.peek.1.column .markerAlone
  rw [parseStatement]
  dsimp only
  rw [hparse]
  dsimp only
  generalize (parseKeys p.peek.2).2.2.addError p.peek.1.line p.peek.1.column .markerAlone = q at herr
  rw [if_pos hm, List.isEmpty_nil, if_pos rfl]
  split_ifs
  · intro hclean
    have hq := ((skipStatementBody_later hlater q.peek.2).clean hclean).1
    rw [Parser.peek_errors] at hq
    exact herr hq
  · exact herr

/-- The key tokens in front of a statement's tail, through `parseStatement`. -/
theorem parseStatement_keys (block : Parser → List Node × Parser) {tail a : Bytes}
    (htail : Delimited tail)
    (hend : ∀ g : Gap, g.bracketDepth = 0 → g.rest = tail → isKey (scanGap g).type = false)
    {k : Lexeme} {ks : List Lexeme} {p : Parser}
    (hfinds : Finds p.lexer.scan tail a 0 (k :: ks))
    (hlone : k = markerLexeme → ks ≠ [])
    (hbud : p.nodes + (k :: ks).length ≤ maxParseNodes) :
    ∃ (toks : List KeyTok) (closed : Bool) (l : Lexer) (g : Gap), lexemes toks = k :: ks
      ∧ l.scan = scanGap g ∧ g.bracketDepth = 0 ∧ g.rest = tail
      ∧ parseStatement block p
          = (some (parseTail block a (liftMarker toks).1 closed (liftMarker toks).2
                { p with lexer := l }).1,
              (parseTail block a (liftMarker toks).1 closed (liftMarker toks).2
                { p with lexer := l }).2) := by
  have hcomment : p.peek.2.lexer.lastGapComment = a := by
    obtain ⟨g, d, ps, start, hg, -, -, -, hscan⟩ := hfinds
    have hgap : gapComment p.lexer.scan.gap = a := by rw [hscan]; exact hg.comment
    exact hgap
  obtain ⟨toks, l, g, hlex, hkeys, hparser, hl⟩ :=
    keysLoop_finds htail hend (k :: ks) ⟨p.peek.2, [], false⟩ a hfinds
      (by rw [List.length_nil]; exact hbud)
  have hparse : parseKeys p.peek.2
      = (markLast (keysLoop ⟨p.peek.2, [], false⟩).parser.lexer.gapLoss toks,
          (parseKeys p.peek.2).2.1, { p with lexer := l }) := by
    rw [parseKeys]
    dsimp only
    rw [hkeys, hparser]
    rfl
  have hmark := markLast_lexemes (keysLoop ⟨p.peek.2, [], false⟩).parser.lexer.gapLoss toks
  generalize markLast (keysLoop ⟨p.peek.2, [], false⟩).parser.lexer.gapLoss toks = toks'
    at hparse hmark
  rw [hlex] at hmark
  obtain ⟨k', ks', rfl⟩ : ∃ k' ks', toks' = k' :: ks' := by
    cases toks' with
    | nil => cases hmark
    | cons k' ks' => exact ⟨k', ks', rfl⟩
  refine ⟨k' :: ks', (parseKeys p.peek.2).2.1, l, g, hmark, hl.1, hl.2.1, hl.2.2, ?_⟩
  have hk' : (k'.kind, k'.value) = k := (List.cons.inj hmark).1
  have hks' : lexemes ks' = ks := (List.cons.inj hmark).2
  have hlone' : k'.isMarker = true → ks' ≠ [] := by
    rintro hm rfl
    refine hlone ?_ hks'.symm
    rw [← hk']
    exact (isMarker_iff k').mp hm
  have htoks : (parseKeys p.peek.2).1 = k' :: ks' := congrArg Prod.fst hparse
  have hq : (parseKeys p.peek.2).2.2 = { p with lexer := l } := congrArg (·.2.2) hparse
  rw [parseStatement_tail block htoks hlone', hcomment, hq]

/-- A leaf: its keys and a `;`. -/
theorem parseStatement_leaf (block : Parser → List Node × Parser) {tail a : Bytes}
    {k : Lexeme} {ks : List Lexeme} {p : Parser}
    (hfinds : Finds p.lexer.scan (';'.toUInt8 :: tail) a 0 (k :: ks))
    (hlone : k = markerLexeme → ks ≠ []) (hbud : p.nodes + (k :: ks).length ≤ maxParseNodes) :
    ∃ (toks : List KeyTok) (closed : Bool) (tok : Token) (l : Lexer), lexemes toks = k :: ks
      ∧ l.bracketDepth = 0 ∧ l.rest = tail
      ∧ parseStatement block p
          = (some (leafNode a (liftMarker toks).1 closed (liftMarker toks).2 tok),
              { p with lexer := l }) := by
  have hscan : ∀ g : Gap, g.rest = ';'.toUInt8 :: tail →
      scanGap g = { type := .semicolon, value := bytes ";", start := ';'.toUInt8 :: tail
                    gap := { g with rest := tail }, marks := some g.inBracket } :=
    fun g hg => scanGap_semicolon hg
  obtain ⟨toks, closed, l, g, hlex, hl, hdepth, hrest, hparse⟩ :=
    parseStatement_keys block (delimited_semicolon tail)
      (fun g _ hg => by rw [hscan g hg]; rfl) hfinds hlone hbud
  rw [hscan g hrest] at hl
  have htype : l.peek.1.type = .semicolon := congrArg Scan.type hl
  have htail : parseTail block a (liftMarker toks).1 closed (liftMarker toks).2 { p with lexer := l }
      = (leafNode a (liftMarker toks).1 closed (liftMarker toks).2 l.peek.1,
          { p with lexer := l.peek.2.next.2 }) := by
    rw [parseTail]
    dsimp only [Parser.peek]
    rw [htype]
    rfl
  refine ⟨toks, closed, l.peek.1, l.peek.2.next.2, hlex, ?_, ?_, ?_⟩
  · exact (congrArg (fun t => t.gap.bracketDepth) hl).trans hdepth
  · exact congrArg (fun t => t.gap.rest) hl
  · rw [hparse, htail]

/-- A block: its keys, a `{`, and what the block parser makes of the rest. -/
theorem parseStatement_block (block : Parser → List Node × Parser) {tail a : Bytes}
    {k : Lexeme} {ks : List Lexeme} {p : Parser}
    (hfinds : Finds p.lexer.scan (' '.toUInt8 :: '\x7b'.toUInt8 :: tail) a 0 (k :: ks))
    (hlone : k = markerLexeme → ks ≠ []) (hbud : p.nodes + (k :: ks).length ≤ maxParseNodes) :
    ∃ (toks : List KeyTok) (closed : Bool) (tok : Token) (l : Lexer), lexemes toks = k :: ks
      ∧ l.next.2.bracketDepth = 0 ∧ l.next.2.rest = tail
      ∧ parseStatement block p
          = (some (blockNode a (liftMarker toks).1 closed (liftMarker toks).2 tok
                (parseBody block { p with lexer := l }).1),
              (parseBody block { p with lexer := l }).2) := by
  obtain ⟨toks, closed, l, g, hlex, hl, hdepth, hrest, hparse⟩ :=
    parseStatement_keys block (delimited_blank _)
      (fun g _ hg => by rw [scanGap_blankBrace hg]; rfl) hfinds hlone hbud
  rw [scanGap_blankBrace hrest] at hl
  have htype : l.peek.1.type = .lBrace := congrArg Scan.type hl
  have htail : parseTail block a (liftMarker toks).1 closed (liftMarker toks).2 { p with lexer := l }
      = (blockNode a (liftMarker toks).1 closed (liftMarker toks).2 l.peek.1
            (parseBody block { p with lexer := l.peek.2 }).1,
          (parseBody block { p with lexer := l.peek.2 }).2) := by
    rw [parseTail]
    dsimp only [Parser.peek]
    rw [htype]
  refine ⟨toks, closed, l.peek.1, l.peek.2, hlex, ?_, ?_, ?_⟩
  · exact (congrArg (fun t => t.gap.bracketDepth) hl).trans hdepth
  · exact congrArg (fun t => t.gap.rest) hl
  · rw [hparse, htail]

/-- A statement with more keys than the budget leaves an error. -/
theorem parseStatement_overBudget {block : Parser → List Node × Parser}
    (hlater : ∀ p, Later p (block p).2) {tail a : Bytes} {d' : ℕ} (htail : Delimited tail)
    {ks : List Lexeme} {p : Parser} (hfinds : Finds p.lexer.scan tail a d' ks)
    (hflag : p.nodeBudgetExceeded = false) (hle : p.nodes ≤ maxParseNodes)
    (hlt : maxParseNodes < p.nodes + ks.length) :
    (parseStatement block p).2.errors ≠ [] := by
  intro hclean
  refine keysLoop_overBudget htail ks ⟨p.peek.2, [], false⟩ a hfinds hflag ?_ ?_
    ((parseStatement_afterKeys hlater p).clean hclean).1
  · exact hle
  · exact hlt

/-! ## Statement lists -/

/-- The statement loop in front of a key. -/
theorem statementsStep_key (block : Parser → List Node × Parser) {p : Parser} (acc : List Node)
    (hflag : p.nodeBudgetExceeded = false) (hkey : isKey p.lexer.scan.type = true) :
    statementsStep block (acc, p)
      = if maxParseNodes ≤ p.nodes + 1 then
          .inr (acc, p.peek.2.noteNodeBudget p.peek.1.line p.peek.1.column)
        else
          match parseStatement block p.peek.2 with
          | (some node, q) => .inl (acc ++ [node], { q with nodes := q.nodes + (1 + node.keys.length) })
          | (none, q) => .inl (acc, q) := by
  have hne : ∀ t, isKey t = false → p.peek.1.type ≠ t := by
    rintro t ht heq
    rw [← heq, Parser.peek_fst, peek_type, hkey] at ht
    cases ht
  have hend : ¬ (p.peek.1.type = .eof ∨ p.peek.1.type = .rBrace) := by
    rintro (h | h)
    · exact hne _ rfl h
    · exact hne _ rfl h
  rw [statementsStep]
  dsimp only
  rw [if_neg (by rw [hflag]; rintro ⟨⟩), if_neg hend, if_neg (hne _ rfl)]
  rfl

/-- The statement loop over a statement that starts with a key. -/
theorem statementsLoop_statement {block : Parser → List Node × Parser}
    (hlater : ∀ p, Later p (block p).2) {p p' : Parser} {node : Node} (acc : List Node)
    (hflag : p.nodeBudgetExceeded = false) (hkey : isKey p.lexer.scan.type = true)
    (hcap : p.nodes + 1 < maxParseNodes) (hstmt : parseStatement block p.peek.2 = (some node, p')) :
    statementsLoop block (acc, p)
      = statementsLoop block
          (acc ++ [node], { p' with nodes := p'.nodes + (1 + node.keys.length) }) := by
  refine run_inl (statementsStep_dec hlater) ?_
  rw [statementsStep_key block acc hflag hkey, if_neg (Nat.not_le.mpr hcap), hstmt]

/-- A clean loop has read the statement in front of it cleanly. -/
theorem statementsLoop_clean {block : Parser → List Node × Parser}
    (hlater : ∀ p, Later p (block p).2) {p : Parser} {acc : List Node}
    (hflag : p.nodeBudgetExceeded = false) (hkey : isKey p.lexer.scan.type = true)
    (hcap : p.nodes + 1 < maxParseNodes) (hclean : (statementsLoop block (acc, p)).2.errors = []) :
    (parseStatement block p.peek.2).2.errors = [] := by
  have hstep := statementsStep_key block acc hflag hkey
  rw [if_neg (Nat.not_le.mpr hcap)] at hstep
  cases hstmt : parseStatement block p.peek.2 with
  | mk r q =>
    rw [hstmt] at hstep
    cases r with
    | none =>
      rw [statementsLoop, run_inl (statementsStep_dec hlater) hstep, ← statementsLoop] at hclean
      exact ((statementsLoop_later hlater _).clean hclean).1
    | some node =>
      rw [statementsLoop, run_inl (statementsStep_dec hlater) hstep, ← statementsLoop] at hclean
      exact ((statementsLoop_later hlater _).clean hclean).1

/-- In front of a statement the budget has no room for, the loop leaves an error. -/
theorem statementsLoop_overBudget (block : Parser → List Node × Parser) {p : Parser}
    (acc : List Node) (hflag : p.nodeBudgetExceeded = false) (hkey : isKey p.lexer.scan.type = true)
    (hcap : ¬ p.nodes + 1 < maxParseNodes) : (statementsLoop block (acc, p)).2.errors ≠ [] := by
  have hstep := statementsStep_key block acc hflag hkey
  rw [if_pos (Nat.not_lt.mp hcap)] at hstep
  have hf : p.peek.2.nodeBudgetExceeded = false := hflag
  rw [statementsLoop, run_inr hstep, Parser.noteNodeBudget, hf, if_neg Bool.false_ne_true]
  simp

/-- The statement loop at a `}` or at the end of the text. -/
theorem statementsLoop_end (block : Parser → List Node × Parser) {p : Parser} (acc : List Node)
    (hflag : p.nodeBudgetExceeded = false)
    (hend : p.lexer.scan.type = .eof ∨ p.lexer.scan.type = .rBrace) :
    statementsLoop block (acc, p) = (acc, p.peek.2) := by
  refine run_inr ?_
  have hend' : p.peek.1.type = .eof ∨ p.peek.1.type = .rBrace := hend
  rw [statementsStep]
  dsimp only
  rw [if_neg (by rw [hflag]; rintro ⟨⟩), if_pos hend']

/-- `parseStatements` below the depth cap is its loop. -/
theorem parseStatements_eq {levels : ℕ} {p q : Parser} {nodes : List Node}
    (hdepth : p.depth < maxParseDepth)
    (hloop : statementsLoop (parseStatements levels) ([], { p with depth := p.depth + 1 })
      = (nodes, q)) :
    parseStatements (levels + 1) p = (nodes, { q with depth := q.depth - 1 }) := by
  rw [parseStatements, if_neg (Nat.not_lt.mpr hdepth), hloop]

/-- `Parse` when the first statement list reaches the end of the text without an
error. -/
theorem parse_eq {input : Bytes} {nodes : List Node} {p : Parser}
    (h : parseStatements (maxParseDepth + 1) (newParser input) = (nodes, p))
    (heof : p.lexer.scan.type = .eof) (hsup : p.suppressed = 0) (herr : p.errors = []) :
    parse input = (nodes, []) := by
  have hloop : parseLoop (nodes, p) = (nodes, p.peek.2) := by
    refine run_inr ?_
    have heof' : p.peek.1.type = .eof := heof
    rw [parseStep]
    dsimp only
    rw [if_pos heof']
  have hsup' : p.peek.2.suppressed = 0 := hsup
  rw [parse, h, hloop]
  dsimp only
  rw [hsup', if_neg (Nat.lt_irrefl 0), Parser.peek_errors, herr]

end Xpf.ConfigReparse
