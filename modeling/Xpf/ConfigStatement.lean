/-
`ConfigStatement.lean` -- one rendered statement, read back.

A statement is written as its annotation, an `inactive:`, its key path and a `;` or a
block. `parseStatement_leaf_reads` and `parseStatement_block_reads` say that the parser
gets the same statement back when its lists do (`listsReadBack`).
`parseStatement_misreads` is the other side: a list around a bare word with a bracket in
it gives a statement with other keys, or an error, whatever stands behind it.
-/
import Xpf.ConfigAccepted
import Xpf.ConfigCanonical

set_option autoImplicit false

namespace Xpf.ConfigStatement

open Xpf.Loop Xpf.GoStrings Xpf.ConfigLexer Xpf.ConfigLexing Xpf.ConfigComment Xpf.ConfigAst
open Xpf.ConfigParser Xpf.ConfigGrammar Xpf.ConfigFormat Xpf.ConfigReparse Xpf.ConfigKeyPath
open Xpf.ConfigAccepted Xpf.ConfigCanonical

/-! ## The text of a statement -/

/-- No list of the node is written around a bare word that splits there. -/
def listsReadBack (n : NodeHead) : Bool :=
  (keyLayout n).all fun group =>
    !group.1 || group.2.all fun i => n.keyQuoted i || !splitsInList (n.keys.getD i [])

/-- The `inactive:` of a statement. -/
def markerPart : Part := .key inactiveMarker markerLexeme

/-- The parts of a statement in front of its `;` or block. -/
def statementParts (n : NodeHead) : List Part :=
  (if n.inactive then [markerPart] else []) ++ (keyLayout n).flatMap (groupParts n)

/-- The tokens of the key path of a node. -/
def pathLexemes (n : NodeHead) : List Lexeme :=
  (flagged (keyLayout n)).map fun f => layoutLexeme n f.1 f.2

/-- The `inactive:` token of a statement. -/
def markerLexemes (n : NodeHead) : List Lexeme := if n.inactive then [markerLexeme] else []

theorem pathLexemes_length (n : NodeHead) : (pathLexemes n).length = n.keys.length := by
  have h := congrArg List.length (keyLayout_indices n)
  rw [List.length_map, List.length_range] at h
  rw [pathLexemes, List.length_map, h]

/-- The values of the tokens are the keys. -/
theorem pathLexemes_values (n : NodeHead) : (pathLexemes n).map (·.2) = n.keys := by
  have hvalue : ∀ f : Bool × ℕ, (layoutLexeme n f.1 f.2).2 = n.keys.getD f.2 [] := fun _ => rfl
  rw [pathLexemes, List.map_map]
  have hcomp : ((fun t : Lexeme => t.2) ∘ fun f : Bool × ℕ => layoutLexeme n f.1 f.2)
      = (fun i => n.keys.getD i []) ∘ Prod.snd := rfl
  rw [hcomp, ← List.map_map, keyLayout_indices]
  refine List.ext_getElem (by simp) fun i h1 h2 => ?_
  rw [List.getElem_map, List.getElem_range, List.getD_eq_getElem?_getD,
    List.getElem?_eq_getElem h2, Option.getD_some]

theorem keyText_marker : KeyText 0 inactiveMarker markerLexeme :=
  keyText_word 0 (by decide) (List.all_eq_true.mp (by decide)) (by decide)

theorem parts_marker (n : NodeHead) :
    Parts 0 (if n.inactive then [markerPart] else []) (markerLexemes n) 0 := by
  rw [markerLexemes]
  split_ifs
  · exact .key keyText_marker (.nil 0)
  · exact .nil 0

theorem keyLayout_ne {n : NodeHead} (hkeys : n.keys ≠ []) :
    (keyLayout n).flatMap (groupParts n) ≠ [] := by
  intro hnil
  have hlen := pathLexemes_length n
  have hpos : 0 < n.keys.length := List.length_pos_iff.mpr hkeys
  have hflag : flagged (keyLayout n) = [] := by
    rw [flagged, List.flatMap_eq_nil_iff]
    intro group hgroup
    have hparts := (List.flatMap_eq_nil_iff.mp hnil) group hgroup
    rw [groupParts] at hparts
    split_ifs at hparts
    rw [List.map_eq_nil_iff] at hparts ⊢
    exact hparts
  rw [pathLexemes, hflag, List.map_nil, List.length_nil] at hlen
  omega

/-- A rendered statement up to its `;` or block is its parts. -/
theorem statementParts_text {n : NodeHead} (hkeys : n.keys ≠ []) :
    ' '.toUInt8 :: (inactivePrefix n ++ formatNodeKeyPath n) = spaced (statementParts n) := by
  obtain ⟨p, ps, hps⟩ := List.exists_cons_of_ne_nil (keyLayout_ne hkeys)
  have hpath := join_spaced p ps
  rw [← hps, ← formatNodeKeyPath_eq] at hpath
  rw [inactivePrefix, statementParts]
  split_ifs
  · rw [List.singleton_append, spaced_cons, ← hpath, List.append_assoc]
    rfl
  · rw [List.nil_append, List.nil_append]
    exact hpath

/-! ## In front of a statement -/

/-- The lexer stands in front of `text`, outside every list. -/
def Ahead (l : Lexer) (text : Bytes) : Prop :=
  l.bracketDepth = 0 ∧ ∃ blanks, (∀ c ∈ blanks, isBlank c = true) ∧ l.rest = blanks ++ text

theorem ahead_scan {l : Lexer} {text : Bytes} (h : Ahead l text) :
    l.scan = scanGap (Gap.start 0 text) := by
  obtain ⟨hdepth, blanks, hblanks, hrest⟩ := h
  rw [Lexer.scan, hdepth, hrest]
  exact scanGap_blanks hblanks (Gap.start 0 []) text

theorem indentation_blank (indent : ℕ) : ∀ c ∈ indentation indent, isBlank c = true := by
  intro c hc
  rw [List.eq_of_mem_replicate hc]
  decide

theorem ahead_indentation {l : Lexer} {indent : ℕ} {text : Bytes}
    (h : Ahead l (indentation indent ++ text)) : Ahead l text := by
  obtain ⟨hdepth, blanks, hblanks, hrest⟩ := h
  refine ⟨hdepth, blanks ++ indentation indent, fun c hc => ?_, ?_⟩
  · rcases List.mem_append.mp hc with hc | hc
    · exact hblanks c hc
    · exact indentation_blank indent c hc
  · rw [hrest, List.append_assoc]

/-- A gap with no bracket in it so far. -/
structure FreshGap (g : Gap) : Prop where
  opened : g.sawOpenAtZero = false
  loss : g.gapLoss = false

/-- In front of a statement the lexer has its annotation in the gap and its parts before
it. -/
theorem scan_statement {n : NodeHead} (hcomment : CommentOk n.annotationText)
    {indent : ℕ} {path tail text : Bytes} {l : Lexer}
    (hl : Ahead l (annotationLine indent n ++ indentation indent ++ path ++ tail))
    (htext : ' '.toUInt8 :: (path ++ tail) = text) :
    ∃ g, GapAt g 0 n.annotationText ∧ FreshGap g ∧ g.rest = text ∧ l.scan = scanGap g := by
  have hblank : ∀ g : Gap, scanGap { g with rest := path ++ tail } = scanGap { g with rest := text } := by
    intro g
    have hblank : ∀ c ∈ [' '.toUInt8], isBlank c = true := List.all_eq_true.mp (by decide)
    rw [← htext]
    exact (scanGap_blanks hblank g (path ++ tail)).symm
  rw [annotationLine] at hl
  split_ifs at hl with hnone
  · rw [List.nil_append, List.append_assoc] at hl
    refine ⟨Gap.start 0 text, ?_, ⟨rfl, rfl⟩, rfl, ?_⟩
    · rw [hnone]
      exact start_gapAt 0 text
    · rw [ahead_scan (ahead_indentation hl)]
      exact hblank (Gap.start 0 [])
  · have hassoc : indentation indent ++ bytes "/* " ++ n.annotationText ++ bytes " */\n"
          ++ indentation indent ++ path ++ tail
        = indentation indent ++ (bytes "/* " ++ (n.annotationText ++ (bytes " */"
            ++ ('\n'.toUInt8 :: (indentation indent ++ (path ++ tail)))))) := by
      have hline : bytes " */\n" = bytes " */" ++ ['\n'.toUInt8] := by decide
      rw [hline]
      simp only [List.append_assoc, List.cons_append, List.nil_append]
    rw [hassoc] at hl
    have hblanks : ∀ c ∈ '\n'.toUInt8 :: indentation indent, isBlank c = true := by
      intro c hc
      rcases List.mem_cons.mp hc with rfl | hc
      · decide
      · exact indentation_blank indent c hc
    let g : Gap := { Gap.start 0 [] with pendingComment := n.annotationText, hasComment := true }
    refine ⟨{ g with rest := text }, ⟨rfl, rfl⟩, ⟨rfl, rfl⟩, rfl, ?_⟩
    rw [ahead_scan (ahead_indentation hl), comment_reads_back hnone hcomment rfl rfl]
    exact (scanGap_blanks hblanks g (path ++ tail)).trans (hblank g)

/-- **In front of a statement** the lexer finds its annotation and the first of its
parts. -/
theorem finds_statement {n : NodeHead} (hcomment : CommentOk n.annotationText)
    {indent d : ℕ} {path tail tail' : Bytes} {ps : List Part} {ks : List Lexeme} {l : Lexer}
    (hl : Ahead l (annotationLine indent n ++ indentation indent ++ path ++ tail))
    (htext : ' '.toUInt8 :: (path ++ tail) = spaced ps ++ tail') (hparts : Parts 0 ps ks d)
    (htail : Delimited tail') : Finds l.scan tail' n.annotationText d ks := by
  obtain ⟨g, hg, -, hrest, hscan⟩ := scan_statement hcomment hl htext
  rw [hscan]
  exact finds_parts hparts htail g hg hrest

/-! ## A statement whose lists read back -/

theorem mem_flagged {layout : List (Bool × List ℕ)} {isList : Bool} {group : List ℕ} {i : ℕ}
    (hgroup : (isList, group) ∈ layout) (hi : i ∈ group) : (isList, i) ∈ flagged layout :=
  List.mem_flatMap.mpr ⟨(isList, group), hgroup, List.mem_map.mpr ⟨i, hi, rfl⟩⟩

theorem flagged_lt {n : NodeHead} {f : Bool × ℕ} (hf : f ∈ flagged (keyLayout n)) :
    f.2 < n.keys.length := by
  have hmem := List.mem_map_of_mem (f := Prod.snd) hf
  rw [keyLayout_indices] at hmem
  exact List.mem_range.mp hmem

/-- A list of an accepted node is right for every key that does not split in it. -/
theorem listedOk_iff {n : Node} (hok : NodeOk n) {i : ℕ} (hi : i < n.keys.length) :
    ListedOk n.toNodeHead i
      ↔ (n.keyQuoted i || !splitsInList (n.keys.getD i [])) = true := by
  rw [ListedOk, Bool.or_eq_true, Bool.not_eq_true']
  by_cases hq : n.keyQuoted i = true
  · rw [hq]
    exact ⟨fun _ => .inl rfl, fun _ => .inl rfl⟩
  · have hshape := hok.words i hi (Bool.eq_false_iff.mpr hq)
    exact ⟨fun h => .inr (h.resolve_left hq).2, fun h => .inr ⟨hshape, h.resolve_left hq⟩⟩

theorem listsReadBack_iff {n : Node} (hok : NodeOk n) :
    listsReadBack n.toNodeHead = true
      ↔ ∀ group, (true, group) ∈ keyLayout n.toNodeHead → ∀ i ∈ group, ListedOk n.toNodeHead i := by
  rw [listsReadBack, List.all_eq_true]
  constructor
  · intro h group hgroup i hi
    have hall := h _ hgroup
    rw [Bool.not_true, Bool.false_or, List.all_eq_true] at hall
    exact (listedOk_iff hok (flagged_lt (mem_flagged hgroup hi))).mpr (hall i hi)
  · rintro h ⟨isList, group⟩ hgroup
    cases isList with
    | false => rfl
    | true =>
      rw [Bool.not_true, Bool.false_or, List.all_eq_true]
      intro i hi
      exact (listedOk_iff hok (flagged_lt (mem_flagged hgroup hi))).mp (h group hgroup i hi)

/-- Only a leaf is written with lists. -/
theorem keyLayout_leaf {n : NodeHead} {i : ℕ} (h : (true, i) ∈ flagged (keyLayout n)) :
    n.isLeaf = true := by
  by_contra hleaf
  have hdrops : dropsBrackets n = false := by
    rw [dropsBrackets, Bool.eq_false_iff.mpr hleaf]
    rfl
  rw [keyLayout, hdrops, if_neg Bool.false_ne_true, Bool.eq_false_iff.mpr hleaf, Bool.false_and,
    Bool.false_and, if_neg Bool.false_ne_true] at h
  simp [flagged] at h

/-- A key token of an accepted node is a marker only as the first key of an inactive
leaf. -/
theorem layoutLexeme_marker {n : Node} (hok : NodeOk n) {f : Bool × ℕ}
    (hf : f ∈ flagged (keyLayout n.toNodeHead))
    (hm : layoutLexeme n.toNodeHead f.1 f.2 = markerLexeme) : f.2 = 0 ∧ n.inactive = true := by
  obtain ⟨isList, i⟩ := f
  cases isList with
  | false => exact absurd hm (keyText_plainKey 0 n.toNodeHead i).2
  | true =>
    have hkind : listedKind n.toNodeHead i = .identifier := congrArg Prod.fst hm
    have hvalue : n.keys.getD i [] = inactiveMarker := congrArg Prod.snd hm
    have hbare : n.keyQuoted i = false := by
      rw [← Bool.not_eq_true]
      intro hq
      rw [listedKind, hq, Bool.true_or, if_pos rfl] at hkind
      cases hkind
    exact hok.marker (keyLayout_leaf hf) i (flagged_lt hf) hbare hvalue

/-- The first key token, which is a marker only in an inactive statement, and the
others, which are none. -/
theorem pathLexemes_cons {n : Node} (hok : NodeOk n) :
    ∃ k ks, pathLexemes n.toNodeHead = k :: ks ∧ (k = markerLexeme → n.inactive = true)
      ∧ markerLexeme ∉ ks := by
  have hindices := keyLayout_indices n.toNodeHead
  obtain ⟨m, hm⟩ : ∃ m, n.keys.length = m + 1 :=
    Nat.exists_eq_succ_of_ne_zero fun h => hok.keys (List.length_eq_zero_iff.mp h)
  have hmarker : ∀ f ∈ flagged (keyLayout n.toNodeHead),
      layoutLexeme n.toNodeHead f.1 f.2 = markerLexeme → f.2 = 0 ∧ n.inactive = true :=
    fun f hf => layoutLexeme_marker hok hf
  rw [hm, List.range_succ_eq_map] at hindices
  rw [pathLexemes]
  cases hflag : flagged (keyLayout n.toNodeHead) with
  | nil =>
    rw [hflag] at hindices
    cases hindices
  | cons f fs =>
    rw [hflag] at hindices hmarker
    refine ⟨layoutLexeme n.toNodeHead f.1 f.2, fs.map fun f => layoutLexeme n.toNodeHead f.1 f.2,
      rfl, fun h => (hmarker f List.mem_cons_self h).2, fun hmem => ?_⟩
    obtain ⟨f', hf', heq⟩ := List.mem_map.mp hmem
    have hzero := (hmarker f' (List.mem_cons_of_mem _ hf') heq).1
    -- behind the first key the indices are successors
    have hsucc : f'.2 ∈ (List.range m).map Nat.succ :=
      (List.cons.inj hindices).2 ▸ List.mem_map_of_mem hf'
    obtain ⟨j, -, hj⟩ := List.mem_map.mp hsucc
    omega

theorem lexemes_values {toks : List KeyTok} {ks : List Lexeme} (h : lexemes toks = ks) :
    toks.map KeyTok.value = ks.map (·.2) := by
  rw [← h, lexemes, List.map_map]
  rfl

/-- **The tokens of a statement give its keys and its marker back.** -/
theorem liftMarker_statement {n : Node} (hok : NodeOk n) {toks : List KeyTok}
    (h : lexemes toks = markerLexemes n.toNodeHead ++ pathLexemes n.toNodeHead) :
    (liftMarker toks).1 = n.inactive ∧ (liftMarker toks).2.map KeyTok.value = n.keys
      ∧ ∀ block, inlineMarker (liftMarker toks).2 block = ⟨(liftMarker toks).2, false, none⟩ := by
  obtain ⟨k, ks, hpath, hfirst, hrest⟩ := pathLexemes_cons hok
  have hlift : (liftMarker toks).1 = n.inactive
      ∧ lexemes (liftMarker toks).2 = pathLexemes n.toNodeHead := by
    rw [lexemes_liftMarker, h, markerLexemes]
    cases toks with
    | nil =>
      rw [hpath] at h
      exact absurd (congrArg List.length h) (by simp [lexemes])
    | cons tok toks =>
      have hcons : (tok.kind, tok.value) :: lexemes toks
          = markerLexemes n.toNodeHead ++ pathLexemes n.toNodeHead := h
      rw [liftMarker]
      by_cases hin : n.inactive = true
      · rw [markerLexemes, if_pos hin] at hcons
        rw [if_pos ((isMarker_iff tok).mpr (List.cons.inj hcons).1), if_pos hin]
        exact ⟨hin.symm, rfl⟩
      · rw [markerLexemes, if_neg hin, List.nil_append, hpath] at hcons
        have hne : k ≠ markerLexeme := fun heq => hin (hfirst heq)
        rw [if_neg hin, List.nil_append, hpath, List.head?_cons,
          if_neg fun heq => hne (Option.some.inj heq), if_neg, Bool.eq_false_iff.mpr hin]
        · exact ⟨rfl, rfl⟩
        · rw [isMarker_iff, (List.cons.inj hcons).1]
          exact hne
  refine ⟨hlift.1, (lexemes_values hlift.2).trans (pathLexemes_values _), fun block => ?_⟩
  rw [hpath] at hlift
  cases hkeys : (liftMarker toks).2 with
  | nil => rfl
  | cons tok rest =>
    rw [hkeys] at hlift
    have hlex : lexemes rest = ks := (List.cons.inj hlift.2).2
    have hno : ∀ t ∈ rest, t.isMarker = false := isMarker_false (by rw [hlex]; exact hrest)
    rw [inlineMarker, splitMarker_noMarker hno]

/-- The tokens of a statement in front of its `;` or block. -/
def statementLexemes (n : NodeHead) : List Lexeme := markerLexemes n ++ pathLexemes n

theorem statementLexemes_length (n : NodeHead) :
    (statementLexemes n).length = (if n.inactive then 1 else 0) + n.keys.length := by
  rw [statementLexemes, List.length_append, pathLexemes_length, markerLexemes]
  split_ifs <;> rfl

theorem statementLexemes_cons {n : Node} (hok : NodeOk n) :
    ∃ k ks, statementLexemes n.toNodeHead = k :: ks ∧ (k = markerLexeme → ks ≠ []) := by
  obtain ⟨k, ks, hpath, hfirst, -⟩ := pathLexemes_cons hok
  rw [statementLexemes, markerLexemes, hpath]
  split_ifs with hin
  · exact ⟨_, _, rfl, fun _ => List.cons_ne_nil k ks⟩
  · exact ⟨k, ks, rfl, fun heq => absurd (hfirst heq) hin⟩

theorem parts_statement {n : Node} (hok : NodeOk n) (hlists : listsReadBack n.toNodeHead = true) :
    Parts 0 (statementParts n.toNodeHead) (statementLexemes n.toNodeHead) 0 :=
  parts_append (parts_marker n.toNodeHead) (parts_layout ((listsReadBack_iff hok).mp hlists))

/-- What is written behind the keys of a statement. -/
def statementTail (indent : ℕ) (n : NodeHead) (body : Bytes) : Bytes :=
  if n.isLeaf then bytes ";\n" else bytes " \x7b\n" ++ body ++ indentation indent ++ bytes "\x7d\n"

theorem statementText_eq (indent : ℕ) (n : NodeHead) (body tail : Bytes) :
    statementText indent n body ++ tail
      = annotationLine indent n ++ indentation indent ++ (inactivePrefix n ++ formatNodeKeyPath n)
          ++ (statementTail indent n body ++ tail) := by
  rw [statementText, statementTail]
  simp only [List.append_assoc]

theorem delimited_statementTail (indent : ℕ) (n : NodeHead) (body tail : Bytes) :
    Delimited (statementTail indent n body ++ tail) := by
  rw [statementTail]
  split_ifs
  · exact .inr rfl
  · exact .inl rfl

/-- The lexer in front of a statement whose lists read back. -/
theorem finds_statement_all {n : Node} (hok : NodeOk n) (hlists : listsReadBack n.toNodeHead = true)
    {indent : ℕ} {body tail : Bytes} {l : Lexer}
    (hl : Ahead l (statementText indent n.toNodeHead body ++ tail)) :
    Finds l.scan (statementTail indent n.toNodeHead body ++ tail) n.annotationText 0
      (statementLexemes n.toNodeHead) := by
  rw [statementText_eq] at hl
  refine finds_statement hok.comment hl ?_ (parts_statement hok hlists)
    (delimited_statementTail indent n.toNodeHead body tail)
  rw [← statementParts_text hok.keys]
  rfl

/-- A node built from the tokens of a statement has its keys and its flags. -/
theorem coreHead_keysHead {n : NodeHead} {keys : List KeyTok} {head : NodeHead}
    (hkeys : keys.map KeyTok.value = n.keys) (hleaf : head.isLeaf = n.isLeaf)
    (hcomment : head.annotationText = n.annotationText) (hinactive : head.inactive = n.inactive) :
    coreHead (keysHead keys head) = coreHead n := by
  rw [coreHead, coreHead, keysHead_keys, hkeys, ← hleaf, ← hcomment, ← hinactive]
  rfl

/-- **A rendered leaf** is read back. -/
theorem parseStatement_leaf_reads (block : Parser → List Node × Parser) {n : Node} (hok : NodeOk n)
    (hlists : listsReadBack n.toNodeHead = true) (hleaf : n.isLeaf = true) {indent : ℕ}
    {body tail : Bytes} {p : Parser}
    (hl : Ahead p.lexer (statementText indent n.toNodeHead body ++ tail))
    (hbud : p.nodes + (statementLexemes n.toNodeHead).length ≤ maxParseNodes) :
    ∃ node l, parseStatement block p = (some node, { p with lexer := l })
      ∧ Node.core node = Node.core n ∧ Ahead l tail := by
  have hfinds := finds_statement_all hok hlists hl
  obtain ⟨k, ks, hcons, hlone⟩ := statementLexemes_cons hok
  have htail : statementTail indent n.toNodeHead body ++ tail
      = ';'.toUInt8 :: ('\n'.toUInt8 :: tail) := by
    rw [statementTail, if_pos hleaf]
    rfl
  rw [hcons] at hbud hfinds
  rw [htail] at hfinds
  obtain ⟨toks, closed, tok, l, hlex, hdepth, hrest, hparse⟩ :=
    parseStatement_leaf block hfinds hlone hbud
  obtain ⟨hin, hkeys, hinline⟩ := liftMarker_statement hok (hlex.trans hcons.symm)
  refine ⟨_, l, hparse, ?_, hdepth, ['\n'.toUInt8], List.all_eq_true.mp (by decide), hrest⟩
  rw [core_eq, core_eq, hok.leaf hleaf, leafNode, hinline]
  refine congrArg (fun head : NodeHead => (⟨head, []⟩ : Node)) ?_
  exact coreHead_keysHead hkeys hleaf.symm rfl hin

/-- **A rendered block** is read back up to its body. -/
theorem parseStatement_block_reads (block : Parser → List Node × Parser) {n : Node} (hok : NodeOk n)
    (hlists : listsReadBack n.toNodeHead = true) (hleaf : n.isLeaf = false) {indent : ℕ}
    {body tail : Bytes} {p : Parser}
    (hl : Ahead p.lexer (statementText indent n.toNodeHead body ++ tail))
    (hbud : p.nodes + (statementLexemes n.toNodeHead).length ≤ maxParseNodes) :
    ∃ (head : NodeHead) (l : Lexer), parseStatement block p
        = (some ⟨head, (parseBody block { p with lexer := l }).1⟩,
            (parseBody block { p with lexer := l }).2)
      ∧ coreHead head = coreHead n.toNodeHead
      ∧ Ahead l.next.2 (body ++ (indentation indent ++ (bytes "\x7d\n" ++ tail))) := by
  have hfinds := finds_statement_all hok hlists hl
  obtain ⟨k, ks, hcons, hlone⟩ := statementLexemes_cons hok
  have htail : statementTail indent n.toNodeHead body ++ tail
      = ' '.toUInt8 :: '\x7b'.toUInt8 :: ('\n'.toUInt8
          :: (body ++ (indentation indent ++ (bytes "\x7d\n" ++ tail)))) := by
    rw [statementTail, if_neg (Bool.eq_false_iff.mp hleaf)]
    simp only [List.append_assoc]
    rfl
  rw [hcons] at hbud hfinds
  rw [htail] at hfinds
  obtain ⟨toks, closed, tok, l, hlex, hdepth, hrest, hparse⟩ :=
    parseStatement_block block hfinds hlone hbud
  obtain ⟨hin, hkeys, hinline⟩ := liftMarker_statement hok (hlex.trans hcons.symm)
  let head : NodeHead :=
    { keys := [], inactive := (liftMarker toks).1 || false, bracketedClosed := closed
      line := tok.line, column := tok.column, annotationText := n.annotationText }
  refine ⟨keysHead (liftMarker toks).2 head, l, ?_, ?_, hdepth, ['\n'.toUInt8],
    List.all_eq_true.mp (by decide), hrest⟩
  · rw [hparse, blockNode, hinline]
  · exact coreHead_keysHead hkeys hleaf.symm rfl ((Bool.or_false _).trans hin)

/-! ## A statement with a list that splits a key -/

theorem exists_first {α : Type} {P : α → Prop} {l : List α} (h : ∃ x ∈ l, ¬ P x) :
    ∃ pre x post, l = pre ++ x :: post ∧ (∀ y ∈ pre, P y) ∧ ¬ P x := by
  induction l with
  | nil =>
    obtain ⟨x, hx, -⟩ := h
    cases hx
  | cons a l ih =>
    by_cases ha : P a
    · obtain ⟨x, hx, hbad⟩ := h
      have hx' : x ∈ l := (List.mem_cons.mp hx).resolve_left fun heq => hbad (heq ▸ ha)
      obtain ⟨pre, y, post, rfl, hpre, hy⟩ := ih ⟨x, hx', hbad⟩
      exact ⟨a :: pre, y, post, rfl, List.forall_mem_cons.mpr ⟨ha, hpre⟩, hy⟩
    · exact ⟨[], a, l, rfl, (by rintro _ ⟨⟩), ha⟩

/-- The parts of a layout up to the first key that may not stand in its list. -/
theorem layout_split {n : NodeHead} {layout : List (Bool × List ℕ)}
    (h : ¬ ∀ group, (true, group) ∈ layout → ∀ i ∈ group, ListedOk n i) :
    ∃ ps ps' fs fs' i, layout.flatMap (groupParts n) = ps ++ layoutPart n true i :: ps'
      ∧ flagged layout = fs ++ (true, i) :: fs' ∧ ¬ ListedOk n i
      ∧ Parts 0 ps (fs.map fun f => layoutLexeme n f.1 f.2) 1 := by
  induction layout with
  | nil => exact absurd (by rintro _ ⟨⟩) h
  | cons group layout ih =>
    have hflag : flagged (group :: layout)
        = (group.2.map fun i => (group.1, i)) ++ flagged layout := rfl
    by_cases hgroup : ∀ i ∈ group.2, group.1 = true → ListedOk n i
    · -- the first group reads back, so the key is in a later one
      have hparts : Parts 0 ([group].flatMap (groupParts n))
          ((flagged [group]).map fun f => layoutLexeme n f.1 f.2) 0 := by
        refine parts_layout fun group' hmem i hi => ?_
        obtain rfl := List.mem_singleton.mp hmem
        exact hgroup i hi rfl
      obtain ⟨ps, ps', fs, fs', i, htexts, hkeys, hbad, hps⟩ := ih fun hrest => h fun group' hmem => by
        rcases List.mem_cons.mp hmem with rfl | hmem
        · exact fun i hi => hgroup i hi rfl
        · exact hrest group' hmem
      refine ⟨groupParts n group ++ ps, ps', (group.2.map fun i => (group.1, i)) ++ fs, fs', i,
        ?_, ?_, hbad, ?_⟩
      · rw [List.flatMap_cons, htexts, List.append_assoc]
      · rw [hflag, hkeys, List.append_assoc]
      · rw [List.map_append]
        simp only [flagged, List.flatMap_cons, List.flatMap_nil, List.append_nil] at hparts
        exact parts_append hparts hps
    · obtain ⟨isList, is⟩ := group
      obtain ⟨pre, i, post, rfl, hpre, hi⟩ := exists_first (l := is)
        (P := fun i => isList = true → ListedOk n i) (by
          by_contra hall
          exact hgroup fun i hi => Classical.byContradiction fun hbad => hall ⟨i, hi, hbad⟩)
      obtain ⟨rfl, hbad⟩ := Classical.not_imp.mp hi
      refine ⟨.opening :: pre.map (layoutPart n true),
        post.map (layoutPart n true) ++ .closing :: layout.flatMap (groupParts n),
        pre.map fun i => (true, i), (post.map fun i => (true, i)) ++ flagged layout, i,
        ?_, ?_, hbad, .opening ?_⟩
      · rw [List.flatMap_cons, groupParts, if_pos rfl]
        simp
      · rw [hflag]
        simp
      · rw [List.map_map]
        exact parts_map fun j hj => keyText_bracketedLeafKey (hpre j hj rfl) 1

theorem not_listedOk {n : Node} (hok : NodeOk n) {i : ℕ} (hi : i < n.keys.length)
    (h : ¬ ListedOk n.toNodeHead i) :
    WordShape (n.keys.getD i []) ∧ splitsInList (n.keys.getD i []) = true
      ∧ bracketedLeafKey n.toNodeHead i = n.keys.getD i [] := by
  rw [listedOk_iff hok hi, Bool.or_eq_true, not_or, Bool.not_eq_true, Bool.not_eq_true',
    Bool.not_eq_false] at h
  have hshape := hok.words i hi h.1
  refine ⟨hshape, h.2, ?_⟩
  rw [bracketedLeafKey, h.1, wordShape_not_breaks hshape, if_neg Bool.false_ne_true,
    if_neg Bool.false_ne_true]

/-- **A word with a bracket in it splits in a list**: the key that is read stops in
front of the bracket. -/
theorem scanGap_splits {k t : Bytes} (hshape : WordShape k) (hsplit : splitsInList k = true)
    {g : Gap} (hdepth : g.bracketDepth = 1) (hrest : g.rest = ' '.toUInt8 :: (k ++ t)) :
    (scanGap g).type = .identifier ∧ (scanGap g).value ≠ k := by
  cases hshape with
  | literal addr port heq hne haddr hport =>
    rw [heq, splitsInList, endpointLiteral, List.head?_cons, Option.any_some, Bool.and_eq_true]
      at hsplit
    exact absurd hsplit.1 (by decide)
  | word c w heq head hbytes opens =>
    obtain ⟨b, hb, hbracket⟩ : ∃ b ∈ w, isBracket b = true := by
      rw [splitsInList, Bool.and_eq_true, List.any_eq_true, heq] at hsplit
      obtain ⟨b, hb, hbracket⟩ := hsplit.2
      rcases List.mem_cons.mp hb with rfl | hb
      · rw [isIdentChar_not_bracket head] at hbracket
        cases hbracket
      · exact ⟨b, hb, hbracket⟩
    have hopen : opensComment (c :: ((w ++ t).takeWhile (isWordByte 1)
        ++ (w ++ t).dropWhile (isWordByte 1))) = false := by
      rw [List.takeWhile_append_dropWhile]
      cases w with
      | nil => cases hb
      | cons c' w => rw [heq] at opens; exact opens
    have hrest' : g.rest = ' '.toUInt8 :: c :: ((w ++ t).takeWhile (isWordByte 1)
        ++ (w ++ t).dropWhile (isWordByte 1)) := by
      rw [hrest, heq, List.takeWhile_append_dropWhile]
      rfl
    have hstop : StopsWord 1 ((w ++ t).dropWhile (isWordByte 1)) := by
      intro b hb
      have hnot := List.head?_dropWhile_not (isWordByte 1) (w ++ t)
      rw [Option.mem_def.mp hb] at hnot
      exact hnot
    have hword := scanGap_word (g := { g with rest := c :: ((w ++ t).takeWhile (isWordByte 1)
        ++ (w ++ t).dropWhile (isWordByte 1)) }) rfl head hopen
      (fun b hb => by rw [hdepth]; exact List.mem_takeWhile_imp hb) (by rw [hdepth]; exact hstop)
    rw [scanGap_blank hrest' (by decide), hword]
    refine ⟨rfl, fun hvalue => ?_⟩
    -- the bytes that were read are no brackets, and the key has one
    rw [heq] at hvalue
    have hmem : b ∈ (w ++ t).takeWhile (isWordByte 1) := by
      rw [(List.cons.inj hvalue).2]
      exact hb
    have hword' : isWordByte 1 b = true := List.mem_takeWhile_imp hmem
    rw [isWordByte, Bool.or_eq_true, Bool.and_eq_true] at hword'
    rcases hword' with hident | hzero
    · rw [isIdentChar_not_bracket hident] at hbracket
      cases hbracket
    · exact absurd hzero.1 (by decide)

theorem keysLoop_extends (st : KeysState) : st.keys <+: (keysLoop st).keys := by
  refine run_induct keysStep_dec (motive := fun st st' => st.keys <+: st'.keys) ?_ ?_ st
  · intro st st' h
    rw [keysStep] at h
    dsimp only at h
    split_ifs at h
    · obtain rfl := Sum.inr.inj h
      exact List.prefix_rfl
    · obtain rfl := Sum.inr.inj h
      exact List.prefix_rfl
  · intro st st' r h hr
    rw [keysStep] at h
    dsimp only at h
    split_ifs at h
    obtain rfl := Sum.inl.inj h
    exact ( List.prefix_append _ _).trans hr

/-- The key loop in front of a key that splits: it reads some other key there, or runs
out of budget. -/
theorem keysLoop_splits {k t : Bytes} (hshape : WordShape k) (hsplit : splitsInList k = true)
    {ks : List Lexeme} {st : KeysState} {a : Bytes}
    (hfinds : Finds st.parser.lexer.scan (' '.toUInt8 :: (k ++ t)) a 1 ks)
    (hflag : st.parser.nodeBudgetExceeded = false)
    (hle : st.parser.nodes + st.keys.length ≤ maxParseNodes)
    (hclean : (keysLoop st).parser.errors = []) :
    ∃ (toks more : List KeyTok) (tok : KeyTok), lexemes toks = ks ∧ tok.value ≠ k
      ∧ (keysLoop st).keys = st.keys ++ (toks ++ tok :: more) := by
  by_cases hbud : st.parser.nodes + st.keys.length + ks.length ≤ maxParseNodes
  · obtain ⟨toks, l, sawClose, a', hlex, ⟨g, hg, hrest, hscan⟩, hloop⟩ :=
      keysLoop_reads (delimited_blank _) ks st a hfinds hbud
    obtain ⟨htype, hvalue⟩ := scanGap_splits hshape hsplit hg.depth hrest
    let st' : KeysState := ⟨{ st.parser with lexer := l }, st.keys ++ toks, sawClose⟩
    have hkey : isKey st'.parser.peek.1.type = true := by
      have htype' : st'.parser.peek.1.type = .identifier := by
        rw [Parser.peek_fst, peek_type, hscan, htype]
      rw [htype']
      rfl
    have hvalue' : st'.parser.peek.1.value ≠ k := by
      rw [Parser.peek_fst, peek_value, hscan]
      exact hvalue
    by_cases hcap : maxParseNodes ≤ st'.parser.peek.2.nodes + st'.keys.length
    · have hstep : keysStep st' = .inr ⟨st'.parser.peek.2.noteNodeBudget st'.parser.peek.1.line
          st'.parser.peek.1.column, st'.keys, st'.sawClose || st'.parser.peek.2.lexer.gapClosed⟩ := by
        rw [keysStep]
        dsimp only
        rw [if_pos hkey, if_pos hcap]
      have hf : st'.parser.peek.2.nodeBudgetExceeded = false := hflag
      rw [hloop, keysLoop, run_inr hstep] at hclean
      dsimp only [id] at hclean
      rw [Parser.noteNodeBudget, hf] at hclean
      simp at hclean
    · let tok : KeyTok := ⟨st'.parser.peek.1.value, st'.parser.peek.1.type,
        st'.parser.peek.2.next.2.lexer.tokInBracket⟩
      have hstep : keysStep st' = .inl ⟨st'.parser.peek.2.next.2, st'.keys ++ [tok],
          st'.sawClose || st'.parser.peek.2.lexer.gapClosed
            || st'.parser.peek.2.next.2.lexer.gapClosed⟩ := by
        rw [keysStep]
        dsimp only
        rw [if_pos hkey, if_neg hcap]
      have hstart : keysLoop st' = _ := run_inl keysStep_dec hstep
      obtain ⟨more, hmore⟩ := keysLoop_extends ⟨st'.parser.peek.2.next.2, st'.keys ++ [tok],
          st'.sawClose || st'.parser.peek.2.lexer.gapClosed
            || st'.parser.peek.2.next.2.lexer.gapClosed⟩
      refine ⟨toks, more, tok, hlex, hvalue', ?_⟩
      rw [hloop, hstart]
      refine hmore.symm.trans ?_
      simp [st']
  · exact absurd hclean (keysLoop_overBudget (delimited_blank _) ks st a hfinds hflag hle
      (Nat.not_le.mp hbud))

theorem splitMarker_isPrefix (ks : List KeyTok) : (splitMarker ks).1 <+: ks := by
  induction ks with
  | nil => exact List.prefix_rfl
  | cons k ks ih =>
    rw [splitMarker]
    split_ifs
    · exact List.nil_prefix
    · exact List.cons_prefix_cons.mpr ⟨rfl, ih⟩

/-- The keys that stay with a statement are the first of those it was read with. -/
theorem inlineMarker_isPrefix (ks : List KeyTok) (block : Bool) :
    (inlineMarker ks block).keys <+: ks := by
  cases ks with
  | nil => exact List.prefix_rfl
  | cons k ks =>
    have hfront := splitMarker_isPrefix ks
    rw [inlineMarker]
    split
    · exact List.prefix_rfl
    · rename_i front behind hsplit
      rw [hsplit] at hfront
      split_ifs
      · exact List.cons_prefix_cons.mpr ⟨rfl, hfront⟩
      · exact List.cons_prefix_cons.mpr ⟨rfl, hfront⟩

theorem liftMarker_fst (ks : List KeyTok) :
    (liftMarker ks).1 = decide ((lexemes ks).head? = some markerLexeme) := by
  cases ks with
  | nil => rfl
  | cons k ks =>
    have hhead : (lexemes (k :: ks)).head? = some (k.kind, k.value) := rfl
    rw [liftMarker, hhead]
    by_cases hk : k.isMarker = true
    · rw [if_pos hk, (isMarker_iff k).mp hk]
      exact (decide_eq_true rfl).symm
    · rw [if_neg hk]
      refine (decide_eq_false fun heq => hk ?_).symm
      exact (isMarker_iff k).mpr (Option.some.inj heq)

theorem parseTail_isLeaf {block : Parser → List Node × Parser} {a : Bytes} {inactive closed : Bool}
    {keys : List KeyTok} {p : Parser} (h : (parseTail block a inactive closed keys p).1.isLeaf = true) :
    ∃ tok, (parseTail block a inactive closed keys p).1 = leafNode a inactive closed keys tok := by
  rw [parseTail] at h ⊢
  dsimp only at h ⊢
  split at h
  · dsimp only at h
    rw [blockNode] at h
    dsimp only at h
    split at h <;> cases h
  · exact ⟨_, rfl⟩
  · exact ⟨_, rfl⟩
  · exact ⟨_, rfl⟩

/-- Keys that differ at one place give different statements, whatever is behind it. -/
theorem leafNode_differs {n : NodeHead} {pre post : List Lexeme} {k : Lexeme}
    (hpath : pathLexemes n = pre ++ k :: post) {toks more : List KeyTok} {tok : KeyTok}
    (htoks : lexemes toks = markerLexemes n ++ pre) (hvalue : tok.value ≠ k.2) {a : Bytes}
    {closed : Bool} {t : Token} {keys : List KeyTok}
    (hkeys : lexemes keys = lexemes (toks ++ tok :: more)) :
    coreHead (leafNode a (liftMarker keys).1 closed (liftMarker keys).2 t).toNodeHead ≠ coreHead n := by
  intro heq
  have hin : (liftMarker keys).1 = n.inactive := congrArg NodeHead.inactive heq
  have hvalues : (inlineMarker (liftMarker keys).2 false).keys.map KeyTok.value = n.keys :=
    congrArg NodeHead.keys heq
  have hlex : lexemes keys = markerLexemes n ++ (pre ++ (tok.kind, tok.value) :: lexemes more) := by
    rw [hkeys, lexemes_append, htoks, List.append_assoc]
    rfl
  have hlift : lexemes (liftMarker keys).2 = pre ++ (tok.kind, tok.value) :: lexemes more := by
    rw [lexemes_liftMarker]
    rw [liftMarker_fst] at hin
    by_cases hn : n.inactive = true
    · rw [hn, decide_eq_true_eq] at hin
      rw [if_pos hin, hlex, markerLexemes, if_pos hn]
      rfl
    · rw [Bool.eq_false_iff.mpr hn, decide_eq_false_iff_not] at hin
      rw [if_neg hin, hlex, markerLexemes, if_neg hn]
      rfl
  -- the keys of the leaf start the tokens, and the tokens differ from the keys at `k`
  have hstarts : n.keys <+: (liftMarker keys).2.map KeyTok.value :=
    hvalues ▸ (inlineMarker_isPrefix (liftMarker keys).2 false).map KeyTok.value
  rw [lexemes_values hlift, ← pathLexemes_values, hpath, List.map_append, List.map_append,
    List.map_cons, List.map_cons] at hstarts
  exact hvalue (List.cons_prefix_cons.mp ((List.prefix_append_right_inj _).mp hstarts)).1.symm

/-- The lexer in front of a statement with a list that splits a key: the parts up to
that key, and the key. -/
theorem finds_statement_split {n : Node} (hok : NodeOk n)
    (hlists : ¬ listsReadBack n.toNodeHead = true) {indent : ℕ} {body tail : Bytes} {l : Lexer}
    (hl : Ahead l (statementText indent n.toNodeHead body ++ tail)) :
    ∃ pre k post t, pathLexemes n.toNodeHead = pre ++ k :: post ∧ n.isLeaf = true
      ∧ WordShape k.2 ∧ splitsInList k.2 = true
      ∧ Finds l.scan (' '.toUInt8 :: (k.2 ++ t)) n.annotationText 1
          (markerLexemes n.toNodeHead ++ pre) := by
  obtain ⟨ps, ps', fs, fs', i, hparts, hflags, hbad, hps⟩ :=
    layout_split fun h => hlists ((listsReadBack_iff hok).mpr h)
  have hmem : (true, i) ∈ flagged (keyLayout n.toNodeHead) := by
    rw [hflags]
    exact List.mem_append_right _ List.mem_cons_self
  obtain ⟨hshape, hsplit, htext⟩ := not_listedOk hok (flagged_lt hmem) hbad
  refine ⟨fs.map fun f => layoutLexeme n.toNodeHead f.1 f.2, layoutLexeme n.toNodeHead true i,
    fs'.map fun f => layoutLexeme n.toNodeHead f.1 f.2,
    spaced ps' ++ (statementTail indent n.toNodeHead body ++ tail), ?_, keyLayout_leaf hmem, hshape,
    hsplit, ?_⟩
  · rw [pathLexemes, hflags, List.map_append, List.map_cons]
  · rw [statementText_eq] at hl
    refine finds_statement hok.comment hl ?_ (parts_append (parts_marker n.toNodeHead) hps) (.inl rfl)
    have hspaced : spaced (statementParts n.toNodeHead)
        = spaced ((if n.inactive then [markerPart] else []) ++ ps)
            ++ ' '.toUInt8 :: (n.keys.getD i [] ++ spaced ps') := by
      have happ : ∀ as bs, spaced (as ++ bs) = spaced as ++ spaced bs :=
        fun as bs => List.flatMap_append
      rw [statementParts, hparts, ← List.append_assoc, happ, spaced_cons]
      exact congrArg (fun text => _ ++ ' '.toUInt8 :: (text ++ spaced ps')) htext
    rw [← List.cons_append, statementParts_text hok.keys, hspaced, List.append_assoc,
      List.cons_append, List.append_assoc]
    rfl

/-- A rendered statement starts with a key. -/
theorem statement_isKey {n : Node} (hok : NodeOk n) {indent : ℕ} {body tail : Bytes} {l : Lexer}
    (hl : Ahead l (statementText indent n.toNodeHead body ++ tail)) :
    isKey l.scan.type = true := by
  have hcons : ∀ {t a : Bytes} {d : ℕ} {k : Lexeme} {ks : List Lexeme},
      Finds l.scan t a d (k :: ks) → isKey l.scan.type = true := by
    rintro t a d k ks ⟨g, d', ps, start, -, -, -, hkey, hscan⟩
    rw [hscan]
    exact hkey
  by_cases hlists : listsReadBack n.toNodeHead = true
  · obtain ⟨k, ks, hkeys, -⟩ := statementLexemes_cons hok
    have hfinds := finds_statement_all hok hlists hl
    rw [hkeys] at hfinds
    exact hcons hfinds
  · obtain ⟨pre, k, post, t, -, -, hshape, hsplit, hfinds⟩ := finds_statement_split hok hlists hl
    cases hks : markerLexemes n.toNodeHead ++ pre with
    | nil =>
      rw [hks] at hfinds
      obtain ⟨g, hg, hrest, hscan⟩ := hfinds
      rw [hscan, (scanGap_splits hshape hsplit hg.depth hrest).1]
      rfl
    | cons k' ks =>
      rw [hks] at hfinds
      exact hcons hfinds

/-- **A list that splits a key** gives another statement, or an error, whatever stands
behind it. -/
theorem parseStatement_misreads {block : Parser → List Node × Parser}
    (hlater : ∀ p, Later p (block p).2) {n : Node} (hok : NodeOk n)
    (hlists : ¬ listsReadBack n.toNodeHead = true) {indent : ℕ} {body tail : Bytes} {p : Parser}
    (hl : Ahead p.lexer (statementText indent n.toNodeHead body ++ tail))
    (hflag : p.nodeBudgetExceeded = false) (hle : p.nodes ≤ maxParseNodes)
    (hclean : (parseStatement block p).2.errors = []) :
    ∃ node, (parseStatement block p).1 = some node
      ∧ coreHead node.toNodeHead ≠ coreHead n.toNodeHead := by
  obtain ⟨pre, k, post, t, hpath, hleaf, hshape, hsplit, hfinds⟩ :=
    finds_statement_split hok hlists hl
  have hkclean := ((parseStatement_afterKeys hlater p).clean hclean).1
  obtain ⟨toks, more, tok, hlex, hvalue, hkeys⟩ :=
    @keysLoop_splits k.2 t hshape hsplit _ ⟨p.peek.2, [], false⟩ _ hfinds hflag hle hkclean
  have hmark : lexemes (parseKeys p.peek.2).1 = lexemes (toks ++ tok :: more) := by
    rw [parseKeys]
    dsimp only
    rw [markLast_lexemes, hkeys]
    rfl
  cases hcons : (parseKeys p.peek.2).1 with
  | nil =>
    rw [hcons, lexemes_append] at hmark
    simp [lexemes] at hmark
  | cons k' ks' =>
    rw [hcons] at hmark
    by_cases hlone : k'.isMarker = true ∧ ks' = []
    · obtain ⟨hm, rfl⟩ := hlone
      exact absurd hclean (parseStatement_lone hlater hcons hm)
    · rw [parseStatement_tail block hcons fun hm hnil => hlone ⟨hm, hnil⟩]
      refine ⟨_, rfl, fun heq => ?_⟩
      obtain ⟨t, ht⟩ := parseTail_isLeaf ((congrArg NodeHead.isLeaf heq).trans hleaf)
      rw [ht] at heq
      exact leafNode_differs hpath hlex hvalue hmark heq

end Xpf.ConfigStatement
