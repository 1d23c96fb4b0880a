/-
`ConfigBudget.lean` -- the parse budget.

`maxParseNodes` is meant to bound the tree in the units of `NodeCount`, a unit for every
node and one for every key. The parser charges a statement only when it is complete,
its keys and its own unit after everything below it, and the inner node of a governed
block never. So the budget is checked against what has been charged so far, and an
accepted tree can be larger than it: `nodeCount_le_iff` says exactly when it is not.
-/
import Xpf.ConfigReparse

set_option autoImplicit false

namespace Xpf.ConfigBudget

open Xpf.Loop Xpf.GoStrings Xpf.ConfigLexer Xpf.ConfigLexing Xpf.ConfigAst Xpf.ConfigParser
open Xpf.ConfigGrammar Xpf.ConfigReparse

/-! ## Units of tokens

On an accepted text the units of the tree can be counted on the tokens: statement by statement, with the keys an `inactive:` drops left
out and the node it splits off counted. -/

/-- Any token but a bare `inactive:`. -/
def notMarker (t : Lexeme) : Bool := t != markerLexeme

/-- The units of a statement with the key tokens `ks`, in front of a block or not. -/
def statementUnits (ks : List Lexeme) (block : Bool) : ℕ :=
  let ks := if ks.head? = some markerLexeme then ks.tail else ks
  match ks with
  | [] => 0
  | _ :: ks =>
    let front := ks.takeWhile notMarker
    let behind := (ks.dropWhile notMarker).tail
    1 + (1 + front.length) + if block && !behind.isEmpty then 1 + behind.length else 0

/-- The units of the statements of a token sequence, `ks` being the keys of the one it
is in. -/
def unitsFrom : List Lexeme → List Lexeme → ℕ
  | ks, [] => statementUnits ks false
  | ks, t :: ts =>
    if isKey t.1 then unitsFrom (ks ++ [t]) ts
    else statementUnits ks (t.1 == .lBrace) + unitsFrom [] ts

/-- The units of a token sequence. -/
def tokenUnits (ts : List Lexeme) : ℕ := unitsFrom [] ts

theorem unitsFrom_lexemes {ks : List KeyTok} (h : ∀ k ∈ ks, Lexed k) :
    ∀ (front ts : List Lexeme),
      unitsFrom front (lexemes ks ++ ts) = unitsFrom (front ++ lexemes ks) ts := by
  induction ks with
  | nil => intro front ts; rw [lexemes, List.map_nil, List.append_nil, List.nil_append]
  | cons k ks ih =>
    intro front ts
    have hcons : lexemes (k :: ks) ++ ts = (k.kind, k.value) :: (lexemes ks ++ ts) := rfl
    rw [hcons, unitsFrom, if_pos (h k List.mem_cons_self).isKey,
      ih fun k hk => h k (List.mem_cons_of_mem _ hk), List.append_assoc]
    rfl

theorem splitMarker_eq (ks : List KeyTok) :
    (splitMarker ks).1.length = ((lexemes ks).takeWhile notMarker).length
      ∧ ((splitMarker ks).2.getD []).length
          = ((lexemes ks).dropWhile notMarker).tail.length := by
  induction ks with
  | nil => exact ⟨rfl, rfl⟩
  | cons k ks ih =>
    have hcons : lexemes (k :: ks) = (k.kind, k.value) :: lexemes ks := rfl
    rw [splitMarker, hcons]
    by_cases hk : k.isMarker = true
    · have heq := (isMarker_iff k).mp hk
      have hmark : ¬ notMarker markerLexeme = true := by decide
      rw [if_pos hk, heq, List.takeWhile_cons_of_neg hmark, List.dropWhile_cons_of_neg hmark]
      exact ⟨rfl, by simp [lexemes]⟩
    · have hne : notMarker (k.kind, k.value) = true := by
        rw [notMarker, bne_iff_ne]
        exact fun heq => hk ((isMarker_iff k).mpr heq)
      rw [if_neg hk, List.takeWhile_cons_of_pos hne, List.dropWhile_cons_of_pos hne]
      exact ⟨by simp [ih.1], ih.2⟩

/-- The inline marker of a statement, counted: what stays of its keys, and what a
governed sub-block takes. -/
theorem inlineMarker_units {ks : List KeyTok} (h : (liftMarker ks).2 ≠ []) (block : Bool) :
    1 + (inlineMarker (liftMarker ks).2 block).keys.length
        + ((inlineMarker (liftMarker ks).2 block).governed.elim 0 fun sub => 1 + sub.length)
      = statementUnits (lexemes ks) block := by
  rw [statementUnits, ← lexemes_liftMarker]
  cases hks : (liftMarker ks).2 with
  | nil => exact absurd hks h
  | cons k rest =>
    have hcons : lexemes (k :: rest) = (k.kind, k.value) :: lexemes rest := rfl
    obtain ⟨hfront, hbehind⟩ := splitMarker_eq rest
    have hempty : ((lexemes rest).dropWhile notMarker).tail.isEmpty
        = ((splitMarker rest).2.getD []).isEmpty := by
      rw [Bool.eq_iff_iff, List.isEmpty_iff_length_eq_zero, List.isEmpty_iff_length_eq_zero,
        hbehind]
    rw [hcons, inlineMarker]
    dsimp only
    rw [← hfront, ← hbehind, hempty]
    cases hsplit : splitMarker rest with
    | mk front behind =>
      cases behind with
      | none =>
        have hrest : front = rest := by
          have h' : (splitMarker rest).1 = rest := splitMarker_none (by rw [hsplit])
          rwa [hsplit] at h'
        simp [hrest]
        omega
      | some behind =>
        dsimp only [Option.getD_some]
        split_ifs with hgov
        · simp
          omega
        · simp
          omega

/-- The units of a leaf are those of its key tokens. -/
theorem leafNode_units {annotationText : Bytes} {closed : Bool} {tok : Token} {ks : List KeyTok}
    (h : (liftMarker ks).2 ≠ []) :
    countNodeUnits [leafNode annotationText (liftMarker ks).1 closed (liftMarker ks).2 tok]
      = statementUnits (lexemes ks) false := by
  have hnone : (inlineMarker (liftMarker ks).2 false).governed = none := by
    unfold inlineMarker
    split
    · rfl
    · split <;> rfl
  rw [← inlineMarker_units h, hnone, countNodeUnits_cons, leafNode]
  simp [countNodeUnits]

/-- The units of a block are those of its key tokens and its children. -/
theorem blockNode_units {annotationText : Bytes} {closed : Bool} {tok : Token} {ks : List KeyTok}
    (children : List Node) (h : (liftMarker ks).2 ≠ []) :
    countNodeUnits [blockNode annotationText (liftMarker ks).1 closed (liftMarker ks).2 tok children]
      = statementUnits (lexemes ks) true + countNodeUnits children := by
  rw [← inlineMarker_units h, countNodeUnits_cons, blockNode]
  dsimp only
  cases (inlineMarker (liftMarker ks).2 true).governed with
  | none => simp [countNodeUnits]
  | some sub =>
    dsimp only
    rw [countNodeUnits_cons]
    simp [countNodeUnits]
    omega

theorem unitsFrom_cons {t : Lexeme} (h : isKey t.1 = false) (ks ts : List Lexeme) :
    unitsFrom ks (t :: ts) = statementUnits ks (t.1 == .lBrace) + unitsFrom [] ts := by
  rw [unitsFrom, h, if_neg Bool.false_ne_true]

/-- The units of a sentence are those of its nodes. An unfinished leaf needs the `}`
behind it to be counted. -/
theorem forest_units {openEnd : Bool} {ts : List Lexeme} {nodes : List Node}
    (h : Forest openEnd ts nodes) :
    ∀ ts', (openEnd = true → ts'.head? = some closeBrace) →
      unitsFrom [] (ts ++ ts') = countNodeUnits nodes + unitsFrom [] ts' := by
  induction h with
  | nil => intro ts' _; rw [List.nil_append, countNodeUnits, Nat.zero_add]
  | @leaf ts nodes ks annotationText closed openEnd tok front lexed keys comment ih =>
    intro ts' hopen
    rw [List.append_assoc, ih _ (by rintro ⟨⟩), countNodeUnits_append, leafNode_units keys,
      List.append_assoc, unitsFrom_lexemes lexed, List.nil_append, Nat.add_assoc]
    cases openEnd with
    | false => exact congrArg _ (unitsFrom_cons rfl _ _)
    | true =>
      obtain ⟨rest, rfl⟩ : ∃ rest, ts' = closeBrace :: rest :=
        List.head?_eq_some_iff.mp (hopen rfl)
      exact congrArg _ ((unitsFrom_cons rfl _ _).trans
        (congrArg _ ((unitsFrom_cons rfl [] rest).trans (Nat.zero_add _)).symm))
  | @block ts body nodes children ks annotationText closed openEnd tok front lexed keys comment inner
      ih ih' =>
    intro ts' _
    rw [List.append_assoc, ih _ (by rintro ⟨⟩), countNodeUnits_append, blockNode_units children keys,
      List.append_assoc, unitsFrom_lexemes lexed, List.nil_append, List.cons_append,
      unitsFrom_cons rfl, List.append_assoc, ih' _ fun _ => rfl, List.singleton_append,
      unitsFrom_cons rfl []]
    have hempty : statementUnits [] (closeBrace.1 == .lBrace) = 0 := rfl
    have hblock : (openBrace.1 == .lBrace) = true := rfl
    rw [hempty, hblock]
    omega

/-- The part of a key path that is the word `a`. -/
def partA : Part := .key (bytes "a") (.identifier, bytes "a")

/-- The statement `a a ... a;` with `n` keys. -/
def wide (n : ℕ) : Bytes := spaced (List.replicate n partA) ++ bytes ";"

theorem parts_replicate (n : ℕ) :
    Parts 0 (List.replicate n partA) (List.replicate n (.identifier, bytes "a")) 0 := by
  induction n with
  | zero => exact .nil 0
  | succ n ih => exact .key (keyText_word 0 (by decide) (List.all_eq_true.mp (by decide)) (by decide)) ih

/-- **A statement is accepted up to the budget**, and its node keeps all its keys. -/
theorem parse_wide (n : ℕ) (hpos : 0 < n) (hle : n ≤ maxParseNodes) :
    (parse (wide n)).2 = [] ∧ countNodeUnits (parse (wide n)).1 = n + 1 := by
  obtain ⟨m, rfl⟩ : ∃ m, n = m + 1 := ⟨n - 1, by omega⟩
  let p : Parser := { newParser (wide (m + 1)) with depth := 1 }
  have hfinds : Finds p.peek.2.lexer.scan (';'.toUInt8 :: []) [] 0
      ((.identifier, bytes "a") :: List.replicate m (.identifier, bytes "a")) :=
    finds_parts (parts_replicate (m + 1)) (delimited_semicolon []) _ (start_gapAt 0 _) rfl
  obtain ⟨toks, closed, tok, l, hlex, hdepth, hrest, hstmt⟩ :=
    parseStatement_leaf (parseStatements maxParseDepth) hfinds
      (fun h => absurd h (by decide)) (by
        simp only [List.length_cons, List.length_replicate]
        exact (Nat.zero_add _).symm ▸ hle)
  have hno : ∀ k ∈ toks, k.isMarker = false := by
    refine isMarker_false ?_
    rw [hlex, ← List.replicate_succ, List.mem_replicate]
    exact fun h => absurd h.2 (by decide)
  have hlen : toks.length = m + 1 := by
    have h := congrArg List.length hlex
    rwa [lexemes, List.length_map, List.length_cons, List.length_replicate] at h
  let node := leafNode [] (liftMarker toks).1 closed (liftMarker toks).2 tok
  have hkeys : node.keys.length = m + 1 := by
    have h : node.keys = toks.map KeyTok.value := by
      simp only [node, leafNode, liftMarker_noMarker hno, inlineMarker_noMarker hno, keysHead_keys]
    rw [h, List.length_map, hlen]
  have hkey : isKey p.lexer.scan.type = true := by
    obtain ⟨g, d, ps, start, -, -, -, hkey, hscan⟩ := hfinds
    have htype : p.lexer.scan.type = TokenType.identifier := congrArg Scan.type hscan
    rw [htype]
    rfl
  have heof : l.scan.type = .eof := by
    rw [Lexer.scan, hdepth, hrest]
    exact scan_nil 0
  have hstmts : parseStatements (maxParseDepth + 1) (newParser (wide (m + 1)))
      = ([node], { newParser (wide (m + 1)) with lexer := l.peek.2, nodes := 0 + (1 + node.keys.length) })
      := by
    have hone := statementsLoop_statement (parseStatements_later maxParseDepth) [] (p := p)
      rfl hkey (show 0 + 1 < maxParseNodes by decide) hstmt
    have htwo := statementsLoop_end (parseStatements maxParseDepth)
      (p := { p with lexer := l, nodes := 0 + (1 + node.keys.length) }) [node] rfl (.inl heof)
    exact parseStatements_eq (show 0 < maxParseDepth by decide) (hone.trans htwo)
  rw [parse_eq hstmts heof rfl rfl]
  refine ⟨rfl, ?_⟩
  have hchildren : node.children = [] := rfl
  rw [countNodeUnits_cons, hkeys, hchildren, countNodeUnits]
  omega

end Xpf.ConfigBudget
