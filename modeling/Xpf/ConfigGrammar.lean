/-
`ConfigGrammar.lean` -- what an accepted configuration is.

`Forest` is the grammar of the configuration language over token sequences, with the
tree next to it: a statement is a run of keys and a `;` or a block, and the last leaf
of a block may leave its `;` out. `parse_forest` says that a text the parser accepts
without an error is a sentence of it, and that the tree is the one the grammar gives;
so every error-recovery path, block skip and budget exit of the parser is covered by
one induction over its loops, and the results about accepted texts are inductions over
the grammar.

The first of them is at the end of this file: without an `inactive:` every key token of
the text is a key of the tree, in order, and the braces match.
-/
import Xpf.ConfigParser
import Xpf.ConfigComment

set_option autoImplicit false

namespace Xpf.ConfigGrammar

open Xpf.Loop Xpf.GoStrings Xpf.ConfigLexer Xpf.ConfigComment Xpf.ConfigAst Xpf.ConfigParser

/-! ## The grammar -/

/-- The three tokens of punctuation. -/
def openBrace : Lexeme := (.lBrace, bytes "\x7b")

@[inherit_doc openBrace] def closeBrace : Lexeme := (.rBrace, bytes "\x7d")

@[inherit_doc openBrace] def semi : Lexeme := (.semicolon, bytes ";")

/-- The tokens of a run of keys. -/
def lexemes (ks : List KeyTok) : List Lexeme := ks.map fun k => (k.kind, k.value)

/-- A leading `inactive:` lifted off the keys of a statement. -/
def liftMarker : List KeyTok → Bool × List KeyTok
  | [] => (false, [])
  | k :: ks => if k.isMarker then (true, ks) else (false, k :: ks)

/-- A key the lexer has produced. -/
structure Lexed (k : KeyTok) : Prop where
  isKey : isKey k.kind = true
  scanned : ∃ d s, (scan d s).type = k.kind ∧ (scan d s).value = k.value

/-- An annotation the lexer has produced. -/
def LexedComment (annotationText : Bytes) : Prop := ∃ d s, annotationText = gapComment (scan d s).gap

/-- The sentences of the configuration language with their trees. The index is `true`
when the last statement is a leaf without its `;`, which only the end of a block
allows. -/
inductive Forest : Bool → List Lexeme → List Node → Prop
  | nil : Forest false [] []
  | leaf {ts : List Lexeme} {nodes : List Node} {ks : List KeyTok} {annotationText : Bytes}
      {closed openEnd : Bool} {tok : Token} (front : Forest false ts nodes)
      (lexed : ∀ k ∈ ks, Lexed k) (keys : (liftMarker ks).2 ≠ [])
      (comment : LexedComment annotationText) :
      Forest openEnd
        (ts ++ (lexemes ks ++ if openEnd then [] else [semi]))
        (nodes ++ [leafNode annotationText (liftMarker ks).1 closed (liftMarker ks).2 tok])
  | block {ts body : List Lexeme} {nodes children : List Node} {ks : List KeyTok}
      {annotationText : Bytes} {closed openEnd : Bool} {tok : Token} (front : Forest false ts nodes)
      (lexed : ∀ k ∈ ks, Lexed k) (keys : (liftMarker ks).2 ≠ [])
      (comment : LexedComment annotationText) (inner : Forest openEnd body children) :
      Forest false
        (ts ++ (lexemes ks ++ openBrace :: (body ++ [closeBrace])))
        (nodes ++ [blockNode annotationText (liftMarker ks).1 closed (liftMarker ks).2 tok children])

/-! ## Single tokens -/

theorem readToken_value (d : ℕ) (ch : UInt8) (s : Bytes) :
    ((readToken d ch s).1 = .lBrace → (readToken d ch s).2.1 = bytes "\x7b")
      ∧ ((readToken d ch s).1 = .rBrace → (readToken d ch s).2.1 = bytes "\x7d")
      ∧ ((readToken d ch s).1 = .semicolon → (readToken d ch s).2.1 = bytes ";") := by
  rw [readToken]
  split_ifs with h1 h2 h3 h4 h5 h6
  · exact ⟨fun _ => by rw [h1]; rfl, (by rintro ⟨⟩), (by rintro ⟨⟩)⟩
  · exact ⟨(by rintro ⟨⟩), fun _ => by rw [h2]; rfl, (by rintro ⟨⟩)⟩
  · exact ⟨(by rintro ⟨⟩), (by rintro ⟨⟩), fun _ => by rw [h3]; rfl⟩
  · exact ⟨(by rintro ⟨⟩), (by rintro ⟨⟩), (by rintro ⟨⟩)⟩
  · rw [readString]
    split <;> exact ⟨(by rintro ⟨⟩), (by rintro ⟨⟩), (by rintro ⟨⟩)⟩
  · exact ⟨(by rintro ⟨⟩), (by rintro ⟨⟩), (by rintro ⟨⟩)⟩
  · exact ⟨(by rintro ⟨⟩), (by rintro ⟨⟩), (by rintro ⟨⟩)⟩

/-- The value of a token of punctuation is its character. -/
theorem scan_value (d : ℕ) (s : Bytes) :
    ((scan d s).type = .lBrace → (scan d s).value = bytes "\x7b")
      ∧ ((scan d s).type = .rBrace → (scan d s).value = bytes "\x7d")
      ∧ ((scan d s).type = .semicolon → (scan d s).value = bytes ";") := by
  rw [scan]
  obtain ⟨g, e⟩ := skipGap (Gap.start d s)
  cases e with
  | unterminated start => exact ⟨(by rintro ⟨⟩), (by rintro ⟨⟩), (by rintro ⟨⟩)⟩
  | eof => exact ⟨(by rintro ⟨⟩), (by rintro ⟨⟩), (by rintro ⟨⟩)⟩
  | literal start value => exact ⟨(by rintro ⟨⟩), (by rintro ⟨⟩), (by rintro ⟨⟩)⟩
  | token =>
    rw [finish]
    split
    · exact ⟨(by rintro ⟨⟩), (by rintro ⟨⟩), (by rintro ⟨⟩)⟩
    · rename_i ch t hrest
      exact readToken_value g.bracketDepth ch t

theorem tokens_lBrace {l : Lexer} (h : l.scan.type = .lBrace) :
    l.tokens = openBrace :: l.next.2.tokens := by
  have hvalue : l.scan.value = bytes "\x7b" := (scan_value _ _).1 h
  rw [Lexer.tokens_cons (by rw [h]; rintro ⟨⟩), h, hvalue]
  rfl

theorem tokens_rBrace {l : Lexer} (h : l.scan.type = .rBrace) :
    l.tokens = closeBrace :: l.next.2.tokens := by
  have hvalue : l.scan.value = bytes "\x7d" := (scan_value _ _).2.1 h
  rw [Lexer.tokens_cons (by rw [h]; rintro ⟨⟩), h, hvalue]
  rfl

theorem tokens_semicolon {l : Lexer} (h : l.scan.type = .semicolon) :
    l.tokens = semi :: l.next.2.tokens := by
  have hvalue : l.scan.value = bytes ";" := (scan_value _ _).2.2 h
  rw [Lexer.tokens_cons (by rw [h]; rintro ⟨⟩), h, hvalue]
  rfl

/-! ## Keys -/

theorem lexemes_append (ks ks' : List KeyTok) : lexemes (ks ++ ks') = lexemes ks ++ lexemes ks' :=
  List.map_append

/-- The span-end mark changes neither the tokens nor what produced them. -/
theorem markLast_lexemes (loss : Bool) (keys : List KeyTok) :
    lexemes (markLast loss keys) = lexemes keys := by
  rw [markLast]
  split
  · rfl
  · rename_i k hk
    have hsplit : keys = keys.dropLast ++ [k] := (List.dropLast_append_getLast? k hk).symm
    rw [lexemes_append]
    conv_rhs => rw [hsplit, lexemes_append]
    rfl

theorem markLast_lexed (loss : Bool) {keys : List KeyTok} (h : ∀ k ∈ keys, Lexed k) :
    ∀ k ∈ markLast loss keys, Lexed k := by
  rw [markLast]
  split
  · exact h
  · rename_i k hk
    intro k' hk'
    rcases List.mem_append.mp hk' with hk' | hk'
    · exact h k' (List.dropLast_subset _ hk')
    · obtain rfl := List.mem_singleton.mp hk'
      have hlast := h k (List.mem_of_getLast? hk)
      exact ⟨hlast.isKey, hlast.scanned⟩

/-- The keys a clean run of the key loop adds are the next tokens, up to one that is
no key. -/
theorem keysLoop_clean (st : KeysState) (hbud : st.parser.nodeBudgetExceeded = false)
    (hclean : (keysLoop st).parser.errors = []) :
    ∃ ks, (keysLoop st).keys = st.keys ++ ks ∧ (∀ k ∈ ks, Lexed k)
      ∧ st.parser.lexer.tokens = lexemes ks ++ (keysLoop st).parser.lexer.tokens
      ∧ isKey (keysLoop st).parser.lexer.scan.type = false := by
  refine run_induct keysStep_dec (motive := fun st st' => st.parser.nodeBudgetExceeded = false →
    st'.parser.errors = [] → ∃ ks, st'.keys = st.keys ++ ks ∧ (∀ k ∈ ks, Lexed k)
      ∧ st.parser.lexer.tokens = lexemes ks ++ st'.parser.lexer.tokens
      ∧ isKey st'.parser.lexer.scan.type = false) ?_ ?_ st hbud hclean
  · intro st st' h hbud hclean
    rw [keysStep] at h
    dsimp only at h
    split_ifs at h with hkey hcap
    · obtain rfl := Sum.inr.inj h
      -- the budget exit has recorded an error
      have hf : st.parser.peek.2.nodeBudgetExceeded = false := hbud
      dsimp only at hclean
      rw [Parser.noteNodeBudget, hf] at hclean
      simp at hclean
    · obtain rfl := Sum.inr.inj h
      refine ⟨[], (List.append_nil _).symm, (by rintro _ ⟨⟩), rfl, ?_⟩
      exact Bool.eq_false_iff.mpr hkey
  · intro st st' r h hr hbud hclean
    rw [keysStep] at h
    dsimp only at h
    split_ifs at h with hkey hcap
    obtain rfl := Sum.inl.inj h
    obtain ⟨ks, hkeys, hlexed, htoks, hend⟩ := hr hbud hclean
    let k0 : KeyTok := ⟨st.parser.peek.1.value, st.parser.peek.1.type,
      st.parser.peek.2.next.2.lexer.tokInBracket⟩
    refine ⟨k0 :: ks, ?_, ?_, ?_, hend⟩
    · rw [hkeys, List.append_assoc]; rfl
    · intro k hk
      rcases List.mem_cons.mp hk with rfl | hk
      · exact ⟨hkey, _, _, rfl, rfl⟩
      · exact hlexed k hk
    · rw [Lexer.tokens_cons (isKey_ne_eof hkey)]
      exact congrArg _ htoks

theorem parseKeys_clean (p : Parser) (hbud : p.nodeBudgetExceeded = false)
    (hclean : (parseKeys p).2.2.errors = []) :
    (∀ k ∈ (parseKeys p).1, Lexed k)
      ∧ p.lexer.tokens = lexemes (parseKeys p).1 ++ (parseKeys p).2.2.lexer.tokens
      ∧ isKey (parseKeys p).2.2.lexer.scan.type = false := by
  obtain ⟨ks, hkeys, hlexed, htoks, hend⟩ := keysLoop_clean ⟨p, [], false⟩ hbud hclean
  rw [List.nil_append] at hkeys
  rw [← hkeys] at hlexed htoks
  refine ⟨markLast_lexed _ hlexed, ?_, hend⟩
  rw [parseKeys]
  dsimp only
  rw [markLast_lexemes]
  exact htoks

/-! ## Statements -/

/-- A later state of the statement loop that is clean has extended the sentence of the
earlier one. -/
def ReadsOn (st st' : StatementsState) : Prop :=
  Later st.2 st'.2 ∧ (st.2.nodeBudgetExceeded = false → st'.2.errors = [] →
    ∀ (ts : List Lexeme) (openEnd : Bool), Forest openEnd ts st.1 →
    (openEnd = true → st.2.lexer.scan.type ∉ [.identifier, .string, .semicolon, .lBrace, .eof]) →
    ∃ ts' openEnd', st.2.lexer.tokens = ts' ++ st'.2.lexer.tokens
      ∧ Forest openEnd' (ts ++ ts') st'.1
      ∧ (openEnd' = true → st'.2.lexer.scan.type ≠ .eof))

theorem peek_lastGapComment (l : Lexer) : LexedComment l.peek.2.lastGapComment :=
  ⟨l.bracketDepth, l.rest, rfl⟩

section

variable {block : Parser → List Node × Parser} (hlater : ∀ p, Later p (block p).2)
  (hblock : ∀ p, p.nodeBudgetExceeded = false → (block p).2.errors = [] →
    ∃ ts openEnd, p.lexer.tokens = ts ++ (block p).2.lexer.tokens ∧ Forest openEnd ts (block p).1)

include hlater hblock

omit hlater in
/-- A clean block is read up to its closing brace. -/
theorem parseBody_clean (p : Parser) (hbud : p.nodeBudgetExceeded = false)
    (hopen : p.lexer.scan.type = .lBrace) (hclean : (parseBody block p).2.errors = []) :
    ∃ ts openEnd, Forest openEnd ts (parseBody block p).1
      ∧ p.lexer.tokens
          = openBrace :: (ts ++ closeBrace :: (parseBody block p).2.lexer.tokens)
      := by
  rw [parseBody] at hclean ⊢
  dsimp only at hclean ⊢
  split_ifs at hclean ⊢ with hclose
  · have hclean' : (block p.next.2).2.errors = [] := hclean
    obtain ⟨ts, openEnd, htoks, hforest⟩ := hblock p.next.2 hbud hclean'
    refine ⟨ts, openEnd, hforest, ?_⟩
    rw [tokens_lBrace hopen]
    refine congrArg _ (htoks.trans ?_)
    rw [tokens_rBrace hclose]
    rfl
  · exact absurd hclean (addError_errors_ne _ _ _ _)

omit hlater in
/-- A clean statement behind its keys. Only a leaf that a `}` (or a token that is an
error for the caller) ends leaves its `;` out. -/
theorem parseTail_clean {annotationText : Bytes} {closed : Bool} {ks : List KeyTok} {p : Parser}
    {node : Node} {p' : Parser}
    (htail : parseTail block annotationText (liftMarker ks).1 closed (liftMarker ks).2 p = (node, p'))
    (hbud : p.nodeBudgetExceeded = false) (hclean : p'.errors = [])
    (hlexed : ∀ k ∈ ks, Lexed k) (hkeys : (liftMarker ks).2 ≠ [])
    (hcomment : LexedComment annotationText) (hend : isKey p.lexer.scan.type = false) :
    ∃ ts openEnd, p.lexer.tokens = ts ++ p'.lexer.tokens
      ∧ (openEnd = true → p'.lexer.scan.type ∉ [.identifier, .string, .semicolon, .lBrace, .eof])
      ∧ ∀ {ts₀ : List Lexeme} {nodes : List Node}, Forest false ts₀ nodes →
          Forest openEnd (ts₀ ++ (lexemes ks ++ ts)) (nodes ++ [node]) := by
  rw [parseTail] at htail
  dsimp only at htail
  split at htail
  · rename_i htype
    obtain ⟨rfl, rfl⟩ := Prod.mk.inj htail
    obtain ⟨ts, openEnd, hforest, htoks⟩ := parseBody_clean hblock p.peek.2 hbud htype hclean
    refine ⟨openBrace :: (ts ++ [closeBrace]), false, ?_, (by rintro ⟨⟩), ?_⟩
    · rw [← peek_tokens]
      refine htoks.trans ?_
      simp only [List.cons_append, List.append_assoc, List.nil_append]
    · intro ts₀ nodes hfront
      exact .block hfront hlexed hkeys hcomment hforest
  · rename_i htype
    obtain ⟨rfl, rfl⟩ := Prod.mk.inj htail
    refine ⟨[semi], false, tokens_semicolon htype, (by rintro ⟨⟩), ?_⟩
    intro ts₀ nodes hfront
    exact .leaf hfront hlexed hkeys hcomment
  · obtain ⟨rfl, rfl⟩ := Prod.mk.inj htail
    exact absurd hclean (addError_errors_ne _ _ _ _)
  · rename_i hbrace hsemi heof
    obtain ⟨rfl, rfl⟩ := Prod.mk.inj htail
    refine ⟨[], true, rfl, fun _ => ?_, ?_⟩
    · rw [isKey, Bool.or_eq_false_iff] at hend
      simp only [List.mem_cons, List.not_mem_nil, or_false, not_or]
      exact ⟨by simpa using hend.1, by simpa using hend.2, hsemi, hbrace, heof⟩
    · intro ts₀ nodes hfront
      exact .leaf hfront hlexed hkeys hcomment

/-- **A clean statement** extends the sentence in front of it by its tokens and its
node. -/
theorem parseStatement_clean {p p' : Parser} {r : Option Node}
    (hstmt : parseStatement block p = (r, p')) (hbud : p.nodeBudgetExceeded = false)
    (hclean : p'.errors = []) (hstart : p.lexer.scan.type ≠ .eof) :
    ∃ node ts openEnd, r = some node ∧ isKey p.lexer.scan.type = true
      ∧ p.lexer.tokens = ts ++ p'.lexer.tokens
      ∧ (openEnd = true → p'.lexer.scan.type ∉ [.identifier, .string, .semicolon, .lBrace, .eof])
      ∧ ∀ {ts₀ : List Lexeme} {nodes : List Node}, Forest false ts₀ nodes →
          Forest openEnd (ts₀ ++ ts) (nodes ++ [node]) := by
  have hcomment := peek_lastGapComment p.lexer
  rw [parseStatement] at hstmt
  dsimp only at hstmt
  split at hstmt
  · rename_i hnil
    split_ifs at hstmt with heof
    · obtain ⟨-, rfl⟩ := Prod.mk.inj hstmt
      exact absurd hclean (addError_errors_ne _ _ _ _)
    · have hscan := parseKeys_nil_scan p.peek.2 hnil
      rw [not_not] at heof
      rw [Parser.next_fst, next_type, hscan] at heof
      exact absurd heof hstart
  · rename_i k ks hks
    have hdone : ∀ {inactive : Bool} {keys : List KeyTok} {node : Node} {p' : Parser},
        liftMarker (k :: ks) = (inactive, keys) → keys ≠ [] →
        parseTail block p.peek.2.lexer.lastGapComment inactive (parseKeys p.peek.2).2.1 keys
          (parseKeys p.peek.2).2.2 = (node, p') → p'.errors = [] →
        ∃ ts openEnd, isKey p.lexer.scan.type = true ∧ p.lexer.tokens = ts ++ p'.lexer.tokens
          ∧ (openEnd = true →
              p'.lexer.scan.type ∉ [.identifier, .string, .semicolon, .lBrace, .eof])
          ∧ ∀ {ts₀ : List Lexeme} {nodes : List Node}, Forest false ts₀ nodes →
              Forest openEnd (ts₀ ++ ts) (nodes ++ [node]) := by
      intro inactive keys node p' hlift hne htail hclean
      have hlt := parseTail_later hlater p.peek.2.lexer.lastGapComment inactive
        (parseKeys p.peek.2).2.1 keys (parseKeys p.peek.2).2.2
      rw [htail] at hlt
      obtain ⟨rfl, rfl⟩ : (liftMarker (k :: ks)).1 = inactive ∧ (liftMarker (k :: ks)).2 = keys :=
        ⟨congrArg Prod.fst hlift, congrArg Prod.snd hlift⟩
      have hkc := (hlt.clean hclean).1
      obtain ⟨hlexed, htoks, hend⟩ := parseKeys_clean p.peek.2 hbud hkc
      have hbud' : (parseKeys p.peek.2).2.2.nodeBudgetExceeded = false :=
        ((parseKeys_later p.peek.2).1.clean hkc).2.trans hbud
      rw [hks] at hlexed htoks
      obtain ⟨ts, openEnd, htoks', hopen, hforest⟩ :=
        parseTail_clean hblock htail hbud' hclean hlexed hne hcomment hend
      refine ⟨lexemes (k :: ks) ++ ts, openEnd, ?_, ?_, hopen, hforest⟩
      · have hhead := (Lexer.tokens_cons hstart).symm.trans htoks
        have hkind : p.lexer.scan.type = k.kind := congrArg Prod.fst (List.cons.inj hhead).1
        rw [hkind]
        exact (hlexed k List.mem_cons_self).isKey
      · rw [← peek_tokens, List.append_assoc, ← htoks']
        exact htoks
    split_ifs at hstmt with hmark hempty hskip
    · obtain ⟨-, rfl⟩ := Prod.mk.inj hstmt
      have hskipLater := skipStatementBody_later hlater
        ((parseKeys p.peek.2).2.2.addError p.peek.1.line p.peek.1.column .markerAlone).peek.2
      have hnil := (hskipLater.clean hclean).1
      rw [Parser.peek_errors] at hnil
      exact absurd hnil (addError_errors_ne _ _ _ _)
    · obtain ⟨-, rfl⟩ := Prod.mk.inj hstmt
      rw [Parser.peek_errors] at hclean
      exact absurd hclean (addError_errors_ne _ _ _ _)
    · obtain ⟨rfl, rfl⟩ := Prod.mk.inj hstmt
      obtain ⟨ts, openEnd, h⟩ := hdone (by rw [liftMarker, if_pos hmark])
        (by simpa using hempty) (Prod.eta _).symm hclean
      exact ⟨_, ts, openEnd, rfl, h⟩
    · obtain ⟨rfl, rfl⟩ := Prod.mk.inj hstmt
      obtain ⟨ts, openEnd, h⟩ := hdone (by rw [liftMarker, if_neg hmark])
        (List.cons_ne_nil k ks) (Prod.eta _).symm hclean
      exact ⟨_, ts, openEnd, rfl, h⟩

/-- The invariant of the statement loop, from any of its states to its exit: what has
been read so far is a sentence, and a leaf without its `;` is followed by nothing the
loop would go on with. -/
theorem statementsLoop_reads (st : StatementsState) : ReadsOn st (statementsLoop block st) := by
  refine run_induct (statementsStep_dec hlater) (motive := ReadsOn) ?_ ?_ st
  · intro st st' h
    obtain ⟨nodes, p⟩ := st
    rw [statementsStep] at h
    dsimp only at h
    split_ifs at h with hexc hend herr hcap
    · obtain rfl := Sum.inr.inj h
      exact ⟨Later.refl p, fun hbud => absurd hexc (Bool.eq_false_iff.mp hbud)⟩
    · obtain rfl := Sum.inr.inj h
      refine ⟨later_peek p, fun _ _ ts openEnd hforest hopen => ?_⟩
      refine ⟨[], openEnd, rfl, by rwa [List.append_nil], fun ho heof => ?_⟩
      have heof' : p.lexer.scan.type = .eof := heof
      exact hopen ho (by simp [heof'])
    · obtain rfl := Sum.inr.inj h
      refine ⟨(later_peek p).trans (later_noteNodeBudget _ _ _), fun hbud hclean => ?_⟩
      have hf : p.peek.2.nodeBudgetExceeded = false := hbud
      dsimp only at hclean
      rw [Parser.noteNodeBudget, hf] at hclean
      simp at hclean
    · split at h <;> cases h
  · intro st st' r h hr
    have hstep := (statementsStep_later hlater st st' h).1
    refine ⟨hstep.trans hr.1, fun hbud hclean ts openEnd hforest hopen => ?_⟩
    have hclean' := (hr.1.clean hclean).1
    have hbud' := ((hstep.clean hclean').2).trans hbud
    obtain ⟨nodes, p⟩ := st
    rw [statementsStep] at h
    dsimp only at h hbud hforest hopen hstep
    rw [if_neg (by rw [hbud]; rintro ⟨⟩)] at h
    split_ifs at h with hend herr hcap
    · -- an error token leaves an error behind
      obtain rfl := Sum.inl.inj h
      exact absurd hclean' (addError_errors_ne p.peek.2 _ _ _)
    · have heof : p.peek.2.lexer.scan.type ≠ .eof := fun heof => hend (.inl heof)
      split at h
      · rename_i node q hq
        obtain rfl := Sum.inl.inj h
        obtain ⟨node', ts₁, openEnd₁, hnode, hkey, htoks, hopen₁, hstmt⟩ :=
          parseStatement_clean hlater hblock hq hbud hclean' heof
        obtain rfl := Option.some.inj hnode
        -- behind a leaf without its `;` there is no key to go on with
        have hfalse : openEnd = false := by
          rw [← Bool.not_eq_true]
          intro ho
          have hkey' : isKey p.lexer.scan.type = true := hkey
          rw [isKey, Bool.or_eq_true, beq_iff_eq, beq_iff_eq] at hkey'
          refine hopen ho ?_
          rcases hkey' with hkey' | hkey' <;> simp [hkey']
        rw [hfalse] at hforest
        obtain ⟨ts', openEnd', htoks', hforest', hopen'⟩ :=
          hr.2 hbud' hclean (ts ++ ts₁) openEnd₁ (hstmt hforest) hopen₁
        refine ⟨ts₁ ++ ts', openEnd', ?_, ?_, hopen'⟩
        · rw [List.append_assoc, ← htoks']
          exact htoks
        · rwa [← List.append_assoc]
      · rename_i q hq
        obtain ⟨node', ts₁, openEnd₁, hnode, -⟩ :=
          parseStatement_clean hlater hblock hq hbud
            (by obtain rfl := Sum.inl.inj h; exact hclean') heof
        cases hnode

end

/-- A clean run of `parseStatements` reads a sentence. -/
theorem parseStatements_clean : ∀ (levels : ℕ) (p : Parser), p.nodeBudgetExceeded = false →
    (parseStatements levels p).2.errors = [] →
    ∃ ts openEnd, p.lexer.tokens = ts ++ (parseStatements levels p).2.lexer.tokens
      ∧ Forest openEnd ts (parseStatements levels p).1
      ∧ (openEnd = true → (parseStatements levels p).2.lexer.scan.type ≠ .eof) := by
  intro levels
  induction levels with
  | zero =>
    intro p _ _
    exact ⟨[], false, rfl, .nil, (by rintro ⟨⟩)⟩
  | succ levels ih =>
    intro p hbud hclean
    have hblock : ∀ p, p.nodeBudgetExceeded = false → (parseStatements levels p).2.errors = [] →
        ∃ ts openEnd, p.lexer.tokens = ts ++ (parseStatements levels p).2.lexer.tokens
          ∧ Forest openEnd ts (parseStatements levels p).1 := by
      intro p hbud hclean
      obtain ⟨ts, openEnd, htoks, hforest, -⟩ := ih p hbud hclean
      exact ⟨ts, openEnd, htoks, hforest⟩
    rw [parseStatements] at hclean ⊢
    split_ifs at hclean ⊢ with hdepth
    · have hskip := skipToBlockClose_later (p.peek.2.addError p.peek.1.line p.peek.1.column
        (.nesting maxParseDepth))
      exact absurd (hskip.clean hclean).1 (addError_errors_ne _ _ _ _)
    · exact (statementsLoop_reads (parseStatements_later levels) hblock
        ([], { p with depth := p.depth + 1 })).2 hbud hclean [] false .nil (by rintro ⟨⟩)

/-- **An accepted text is a sentence** of the grammar, and its tree is the one the
grammar gives. -/
theorem parse_forest {input : Bytes} (h : (parse input).2 = []) :
    Forest false (tokens 0 input) (parse input).1 := by
  obtain ⟨htree, hclean, heof⟩ := parse_clean h
  obtain ⟨ts, openEnd, htoks, hforest, hopen⟩ :=
    parseStatements_clean (maxParseDepth + 1) (newParser input) rfl hclean
  have hfalse : openEnd = false := by
    rw [← Bool.not_eq_true]
    exact fun ho => hopen ho heof
  rw [Lexer.tokens_eof heof, List.append_nil] at htoks
  have hinput : tokens 0 input = ts := htoks
  rw [htree, hinput, ← hfalse]
  exact hforest

/-! ## No key is lost

Without a marker a statement keeps all of its keys, and its node is the node the
tokens spell. -/

/-- A bare `inactive:` among the tokens. -/
def markerLexeme : Lexeme := (.identifier, inactiveMarker)

/-- The values of the identifier and string tokens, in order. -/
def keyValues (ts : List Lexeme) : List Bytes := (ts.filter fun t => isKey t.1).map (·.2)

/-- The braces of a token sequence match, with `depth` of them open in front of it. -/
def bracesMatch : ℕ → List Lexeme → Bool
  | depth, [] => depth == 0
  | depth, t :: ts =>
    if t.1 = .lBrace then bracesMatch (depth + 1) ts
    else if t.1 = .rBrace then decide (0 < depth) && bracesMatch (depth - 1) ts
    else bracesMatch depth ts

theorem isMarker_iff (k : KeyTok) : k.isMarker = true ↔ (k.kind, k.value) = markerLexeme := by
  rw [KeyTok.isMarker, Bool.and_eq_true, beq_iff_eq, beq_iff_eq, markerLexeme, Prod.mk.injEq]

theorem isMarker_false {ks : List KeyTok} (h : markerLexeme ∉ lexemes ks) :
    ∀ k ∈ ks, k.isMarker = false := by
  intro k hk
  rw [← Bool.not_eq_true, isMarker_iff]
  intro heq
  exact h (heq ▸ List.mem_map_of_mem hk)

/-- The key tokens behind a lifted marker. -/
theorem lexemes_liftMarker (ks : List KeyTok) :
    lexemes (liftMarker ks).2
      = if (lexemes ks).head? = some markerLexeme then (lexemes ks).tail else lexemes ks := by
  cases ks with
  | nil => rfl
  | cons k ks =>
    rw [liftMarker]
    by_cases hk : k.isMarker = true
    · have heq := (isMarker_iff k).mp hk
      rw [if_pos hk]
      simp [lexemes, heq]
    · have hne : ¬ (k.kind, k.value) = markerLexeme := fun heq => hk ((isMarker_iff k).mpr heq)
      rw [if_neg hk]
      simp [lexemes, hne]

theorem liftMarker_noMarker {ks : List KeyTok} (h : ∀ k ∈ ks, k.isMarker = false) :
    liftMarker ks = (false, ks) := by
  cases ks with
  | nil => rfl
  | cons k ks => rw [liftMarker, h k List.mem_cons_self, if_neg Bool.false_ne_true]

theorem splitMarker_noMarker {ks : List KeyTok} (h : ∀ k ∈ ks, k.isMarker = false) :
    splitMarker ks = (ks, none) := by
  induction ks with
  | nil => rfl
  | cons k ks ih =>
    rw [splitMarker, h k List.mem_cons_self, if_neg Bool.false_ne_true,
      ih fun k hk => h k (List.mem_cons_of_mem _ hk)]

theorem splitMarker_none {ks : List KeyTok} (h : (splitMarker ks).2 = none) :
    (splitMarker ks).1 = ks := by
  induction ks with
  | nil => rfl
  | cons k ks ih =>
    rw [splitMarker] at h ⊢
    split_ifs at h ⊢ with hk
    exact congrArg _ (ih h)

theorem inlineMarker_noMarker {ks : List KeyTok} (h : ∀ k ∈ ks, k.isMarker = false)
    (block : Bool) : inlineMarker ks block = ⟨ks, false, none⟩ := by
  cases ks with
  | nil => rfl
  | cons k ks =>
    rw [inlineMarker, splitMarker_noMarker fun k hk => h k (List.mem_cons_of_mem _ hk)]

@[simp] theorem keysHead_keys (keys : List KeyTok) (head : NodeHead) :
    (keysHead keys head).keys = keys.map KeyTok.value := rfl

theorem keyValues_append (ts ts' : List Lexeme) :
    keyValues (ts ++ ts') = keyValues ts ++ keyValues ts' := by
  rw [keyValues, List.filter_append, List.map_append]
  rfl

theorem keyValues_lexemes {ks : List KeyTok} (h : ∀ k ∈ ks, Lexed k) :
    keyValues (lexemes ks) = ks.map KeyTok.value := by
  have hfilter : (lexemes ks).filter (fun t => isKey t.1) = lexemes ks := by
    refine List.filter_eq_self.mpr fun t ht => ?_
    obtain ⟨k, hk, rfl⟩ := List.mem_map.mp ht
    exact (h k hk).isKey
  rw [keyValues, hfilter, lexemes, List.map_map]
  rfl

/-- The keys of the nodes of a sentence without markers are its key tokens. -/
theorem forest_keys {openEnd : Bool} {ts : List Lexeme} {nodes : List Node}
    (h : Forest openEnd ts nodes) (hmark : markerLexeme ∉ ts) :
    nodesAllKeys nodes = keyValues ts := by
  induction h with
  | nil => rfl
  | @leaf ts nodes ks annotationText closed openEnd tok front lexed keys comment ih =>
    simp only [List.mem_append, not_or] at hmark
    have hno := isMarker_false hmark.2.1
    rw [nodesAllKeys_append, ih hmark.1, keyValues_append, keyValues_append,
      keyValues_lexemes lexed, liftMarker_noMarker hno, nodesAllKeys_cons, leafNode,
      inlineMarker_noMarker hno]
    cases openEnd <;> simp [nodesAllKeys, keyValues, isKey, semi]
  | @block ts body nodes children ks annotationText closed openEnd tok front lexed keys comment inner
      ih ih' =>
    simp only [List.mem_append, List.mem_cons, not_or] at hmark
    have hno := isMarker_false hmark.2.1
    rw [nodesAllKeys_append, ih hmark.1, keyValues_append, keyValues_append,
      keyValues_lexemes lexed, liftMarker_noMarker hno, nodesAllKeys_cons, blockNode,
      inlineMarker_noMarker hno]
    have hbody := ih' hmark.2.2.2.1
    dsimp only
    rw [hbody]
    simp [nodesAllKeys, keyValues, isKey, openBrace, closeBrace]

theorem bracesMatch_lexemes {ks : List KeyTok} (h : ∀ k ∈ ks, Lexed k) (depth : ℕ)
    (ts : List Lexeme) : bracesMatch depth (lexemes ks ++ ts) = bracesMatch depth ts := by
  induction ks with
  | nil => rfl
  | cons k ks ih =>
    have hkey := (h k List.mem_cons_self).isKey
    have h1 : k.kind ≠ .lBrace := by intro heq; rw [heq] at hkey; cases hkey
    have h2 : k.kind ≠ .rBrace := by intro heq; rw [heq] at hkey; cases hkey
    have hcons : lexemes (k :: ks) ++ ts = (k.kind, k.value) :: (lexemes ks ++ ts) := rfl
    rw [hcons, bracesMatch, if_neg h1, if_neg h2,
      ih fun k hk => h k (List.mem_cons_of_mem _ hk)]

/-- A sentence opens and closes its own braces, whatever stands around it. -/
theorem forest_braces {openEnd : Bool} {ts : List Lexeme} {nodes : List Node}
    (h : Forest openEnd ts nodes) :
    ∀ (depth : ℕ) (ts' : List Lexeme), bracesMatch depth (ts ++ ts') = bracesMatch depth ts' := by
  induction h with
  | nil => exact fun _ _ => rfl
  | @leaf ts nodes ks annotationText closed openEnd tok front lexed keys comment ih =>
    intro depth ts'
    rw [List.append_assoc, ih, List.append_assoc, bracesMatch_lexemes lexed]
    cases openEnd <;> rfl
  | @block ts body nodes children ks annotationText closed openEnd tok front lexed keys comment inner
      ih ih' =>
    intro depth ts'
    rw [List.append_assoc, ih, List.append_assoc, bracesMatch_lexemes lexed, List.cons_append,
      List.append_assoc]
    have hopen : ∀ ts, bracesMatch depth (openBrace :: ts) = bracesMatch (depth + 1) ts :=
      fun _ => rfl
    have hclose : ∀ ts, bracesMatch (depth + 1) (closeBrace :: ts) = bracesMatch depth ts := by
      intro ts
      simp [bracesMatch, closeBrace]
    rw [hopen, ih', List.singleton_append, hclose]

/-- **No silent loss.** In a text accepted without an error and without a bare
`inactive:`, the keys of the tree in depth-first order are exactly the identifier and
string tokens of the text, and its braces match. -/
theorem parse_keys_complete (input : Bytes) (h : (parse input).2 = [])
    (hmark : (TokenType.identifier, bytes "inactive:") ∉ tokens 0 input) :
    nodesAllKeys (parse input).1 = keyValues (tokens 0 input)
      ∧ bracesMatch 0 (tokens 0 input) = true := by
  have hforest := parse_forest h
  refine ⟨forest_keys hforest hmark, ?_⟩
  have hbraces := forest_braces hforest 0 []
  rw [List.append_nil] at hbraces
  exact hbraces

/-- A text with a list, a block and a quoted key. -/
theorem parse_keys_complete_block :
    nodesAllKeys (parse (bytes "a [ b c ] \x7b d \"e f\" \x7d")).1
        = keyValues (tokens 0 (bytes "a [ b c ] \x7b d \"e f\" \x7d"))
      ∧ bracesMatch 0 (tokens 0 (bytes "a [ b c ] \x7b d \"e f\" \x7d")) = true :=
  parse_keys_complete (bytes "a [ b c ] \x7b d \"e f\" \x7d") (by decide +kernel) (by decide +kernel)

end Xpf.ConfigGrammar
