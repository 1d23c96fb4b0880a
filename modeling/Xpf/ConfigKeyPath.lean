/-
`ConfigKeyPath.lean` -- what a rendered key path reads back as.

A key outside a list is written so that it reads back as itself whatever its bytes are:
the escapes of `keyEscaper` are those `readString` undoes, and a key is left bare only
when the lexer reads it as one word. A key inside a list is written verbatim, and that
is right for every word the lexer can produce inside a list, but not for one it can only
produce outside: a word with a bracket in it (`splitsInList`).
-/
import Xpf.ConfigFormat
import Xpf.ConfigReparse

set_option autoImplicit false

namespace Xpf.ConfigKeyPath

open Xpf.Loop Xpf.GoStrings Xpf.ConfigLexer Xpf.ConfigLexing Xpf.ConfigAst Xpf.ConfigParser
open Xpf.ConfigGrammar Xpf.ConfigFormat Xpf.ConfigReparse

/-! ## Quoted keys -/

/-- **The escapes are undone**: an escaped key and a closing quote read back as the
key. -/
theorem readStringLoop_keyEscaper (k tail : Bytes) :
    readStringLoop (keyEscaper k ++ '"'.toUInt8 :: tail) = some (k, tail) := by
  induction k with
  | nil =>
    have hnil : keyEscaper [] ++ '"'.toUInt8 :: tail = '"'.toUInt8 :: tail := rfl
    rw [hnil, readStringLoop.eq_def]
    exact if_pos rfl
  | cons c k ih =>
    have hcons : keyEscaper (c :: k) = escapeByte c ++ keyEscaper k := rfl
    rw [hcons, List.append_assoc, escapeByte]
    split_ifs with h1 h2 h3
    · rw [h1]
      rw [List.cons_append, List.cons_append, List.nil_append, readStringLoop, if_neg (by decide),
        if_pos rfl, ih]
      rfl
    · rw [h2]
      rw [List.cons_append, List.cons_append, List.nil_append, readStringLoop, if_neg (by decide),
        if_pos rfl, ih]
      rfl
    · rw [h3]
      rw [List.cons_append, List.cons_append, List.nil_append, readStringLoop, if_neg (by decide),
        if_pos rfl, ih]
      rfl
    · rw [List.singleton_append, readStringLoop.eq_def]
      dsimp only
      rw [if_neg h2, if_neg h1, ih]
      rfl

/-- A quoted key is read as a string, at any depth. -/
theorem keyText_quoted (d : ℕ) (k : Bytes) : KeyText d (quoted k) (.string, k) := by
  refine ⟨rfl, fun g tail _ _ hrest => ?_⟩
  have hsplit : quoted k ++ tail = '"'.toUInt8 :: (keyEscaper k ++ '"'.toUInt8 :: tail) := by
    rw [quoted, List.cons_append, List.append_assoc]
    rfl
  rw [hsplit] at hrest ⊢
  exact scanGap_string hrest (readStringLoop_keyEscaper k tail)

/-! ## Bare keys -/

/-- The value of an identifier is no longer than the text it is read from. -/
theorem scanGap_value_length (g : Gap) (h : (scanGap g).type = .identifier) :
    (scanGap g).value.length ≤ g.rest.length := by
  have hgap := skipGap_spec g
  rw [scanGap] at h ⊢
  generalize skipGap g = r at hgap h ⊢
  obtain ⟨g', e⟩ := r
  dsimp only at hgap
  cases e with
  | unterminated start => cases h
  | eof => cases h
  | literal start value => exact hgap.2.2
  | token =>
    obtain ⟨hle, ch, t, hrest, -⟩ := hgap
    rw [finish, hrest] at h ⊢
    dsimp only at h ⊢
    rw [hrest] at hle
    refine Nat.le_trans ?_ hle
    rw [readToken] at h ⊢
    split_ifs at h ⊢ with h1 h2 h3 h4 h5 h6
    · rw [readString] at h
      split at h <;> cases h
    · exact ( List.takeWhile_prefix _).length_le

/-- A text of identifier bytes that opens a comment is not read as itself. -/
theorem opensComment_scan {k : Bytes} (hk : ∀ b ∈ k, isIdentChar b = true)
    (hopen : opensComment k = true) :
    ¬ ((scan 0 k).type = .identifier ∧ (scan 0 k).value = k) := by
  rintro ⟨htype, hvalue⟩
  rw [opensComment, Bool.and_eq_true, Bool.or_eq_true, beq_iff_eq, beq_iff_eq, beq_iff_eq] at hopen
  obtain ⟨hslash, hsecond⟩ := hopen
  obtain ⟨t, rfl⟩ := List.head?_eq_some_iff.mp hslash
  rw [List.tail_cons] at hsecond
  rcases hsecond with hstar | hslash'
  · obtain ⟨s, rfl⟩ := List.head?_eq_some_iff.mp hstar
    cases hclose : splitClose s with
    | none =>
      rw [scan, skipGap, run_inr (b := ({ Gap.start 0 ('/'.toUInt8 :: '*'.toUInt8 :: s) with
        rest := [] }, .unterminated ('/'.toUInt8 :: '*'.toUInt8 :: s)))] at htype
      · cases htype
      · rw [gapStep, skip_unterminated rfl hclose]
    | some r =>
      have hskip := skipGap_congr (skip_blockComment
        (g := Gap.start 0 ('/'.toUInt8 :: '*'.toUInt8 :: s)) rfl hclose)
      have hscan : scan 0 ('/'.toUInt8 :: '*'.toUInt8 :: s) = scanGap (Gap.addComment
          { Gap.start 0 ('/'.toUInt8 :: '*'.toUInt8 :: s) with rest := r.2 } r.1) := by
        rw [scan, hskip, scanGap]
      rw [hscan] at htype hvalue
      have hlen := scanGap_value_length _ htype
      have hlt := splitClose_length hclose
      rw [hvalue, addComment_rest] at hlen
      simp only [List.length_cons] at hlen
      omega
  · obtain ⟨s, rfl⟩ := List.head?_eq_some_iff.mp hslash'
    have hline : skipLine ('/'.toUInt8 :: s) = [] := by
      refine List.dropWhile_eq_nil_iff.mpr fun b hb => ?_
      rw [bne_iff_ne]
      exact isIdentChar_ne (hk b (List.mem_cons_of_mem _ hb)) (by decide)
    have hskip := skipGap_congr (skip_lineComment
      (g := Gap.start 0 ('/'.toUInt8 :: '/'.toUInt8 :: s)) rfl)
    rw [scan, hskip, hline, skipGap_nil rfl] at htype
    cases htype

/-- A key that is safe to write bare is read as itself, at any depth, and is no
marker. -/
theorem keyText_bareKeySafe (d : ℕ) {k : Bytes} (h : bareKeySafe k = true) :
    KeyText d k (.identifier, k) ∧ k ≠ inactiveMarker := by
  simp only [bareKeySafe, Bool.and_eq_true, Bool.not_eq_true', List.all_eq_true, beq_iff_eq] at h
  obtain ⟨⟨⟨hne, hident⟩, ⟨htype, hvalue⟩, -⟩, hmarker⟩ := h
  refine ⟨?_, ?_⟩
  · refine keyText_word d (fun hnil => by rw [hnil] at hne; cases hne) hident ?_
    rw [← Bool.not_eq_true]
    exact fun hopen => opensComment_scan hident hopen ⟨htype, hvalue⟩
  · rintro rfl
    exact absurd hmarker (by decide)

/-- How `plainKey` writes a key: bare or quoted. -/
def plainKind (n : NodeHead) (i : ℕ) : TokenType :=
  if keyNeedsAuthoredQuote n i then .string
  else if bareKeySafe (n.keys.getD i []) then .identifier else .string

/-- A key outside a list reads back as itself, and never as a marker. -/
theorem keyText_plainKey (d : ℕ) (n : NodeHead) (i : ℕ) :
    KeyText d (plainKey n i) (plainKind n i, n.keys.getD i [])
      ∧ (plainKind n i, n.keys.getD i []) ≠ markerLexeme := by
  rw [plainKey, plainKind, quoteKey]
  split_ifs with h1 h2
  · exact ⟨keyText_quoted d _, fun h => by cases congrArg Prod.fst h⟩
  · obtain ⟨htext, hne⟩ := keyText_bareKeySafe d h2
    exact ⟨htext, fun h => hne (congrArg Prod.snd h)⟩
  · exact ⟨keyText_quoted d _, fun h => by cases congrArg Prod.fst h⟩

/-! ## Keys inside a list -/

/-- A word that the lexer reads as one key only outside a list: it starts like an
identifier and has a bracket in it. -/
def splitsInList (k : Bytes) : Bool := k.head?.any isIdentChar && k.any isBracket

/-- What an identifier token can look like. -/
inductive WordShape (k : Bytes) : Prop
  /-- a run of word bytes that starts with an identifier byte -/
  | word (c : UInt8) (w : Bytes) (eq : k = c :: w) (head : isIdentChar c = true)
      (bytes : ∀ b ∈ w, isIdentChar b = true ∨ isBracket b = true)
      (opens : opensComment k = false)
  /-- an endpoint literal -/
  | literal (addr port : Bytes) (eq : k = endpointLiteral addr port) (ne : addr ≠ [])
      (addrBytes : ∀ b ∈ addr, isIdentChar b = true) (portBytes : ∀ b ∈ port, isIdentChar b = true)

theorem tryBracketedEndpointLiteral_shape {s value after : Bytes}
    (h : tryBracketedEndpointLiteral s = some (value, after)) : WordShape value := by
  obtain ⟨addr, port, hne, haddr, hport, -, -, hvalue⟩ := tryBracketedEndpointLiteral_split h
  exact .literal addr port hvalue hne haddr hport

/-- Skipping stops in front of something solid, if anything is left. -/
theorem skip_stops (g : Gap) :
    ∀ ch s, (skipWhitespaceAndComments g).1.rest = ch :: s →
      (skipWhitespaceAndComments g).2 = none → Solid ch s := by
  refine run_induct skipStep_dec (motive := fun _ r => ∀ ch s, r.1.rest = ch :: s →
    r.2 = none → Solid ch s) ?_ ?_ g
  · intro g r h ch s hrest hnone
    rw [skipStep] at h
    split at h
    · rename_i hnil
      obtain rfl := Sum.inr.inj h
      rw [hnil] at hrest
      cases hrest
    · rename_i c t hcons
      split_ifs at h with h1 h2 h3 h4
      · split at h
        · obtain rfl := Sum.inr.inj h
          cases hnone
        · cases h
      · obtain rfl := Sum.inr.inj h
        dsimp only at hrest
        rw [hcons] at hrest
        obtain ⟨rfl, rfl⟩ := List.cons.inj hrest
        exact ⟨Bool.eq_false_iff.mpr h1, h2, fun hslash =>
          ⟨fun hs => h3 ⟨hslash, hs⟩, fun hs => h4 ⟨hslash, hs⟩⟩⟩
  · exact fun _ _ _ _ hr => hr

/-- The skip loop of `Next` ends in front of a solid byte, or with an endpoint
literal. -/
theorem skipGap_stops (g : Gap) :
    match (skipGap g).2 with
    | .token => ∀ ch s, (skipGap g).1.rest = ch :: s → Solid ch s
    | .literal _ value => WordShape value
    | _ => True := by
  refine run_induct gapStep_dec (motive := fun _ r =>
    match r.2 with
    | .token => ∀ ch s, r.1.rest = ch :: s → Solid ch s
    | .literal _ value => WordShape value
    | _ => True) ?_ ?_ g
  · intro g r h
    have hstops := skip_stops g
    rw [gapStep] at h
    split at h
    · obtain rfl := Sum.inr.inj h
      trivial
    · rename_i g1 hskip
      rw [hskip] at hstops
      split at h
      · obtain rfl := Sum.inr.inj h
        trivial
      · split_ifs at h with h1 h2 h3
        · split at h
          · rename_i value after hlit
            obtain rfl := Sum.inr.inj h
            exact tryBracketedEndpointLiteral_shape hlit
          · cases h
        · obtain rfl := Sum.inr.inj h
          exact fun ch s hrest => hstops ch s hrest rfl
  · exact fun _ _ _ _ hr => hr

/-- **The shape of an identifier**: a word, or an endpoint literal. -/
theorem scanGap_shape (g : Gap) (h : (scanGap g).type = .identifier) :
    WordShape (scanGap g).value := by
  have hstops := skipGap_stops g
  rw [scanGap] at h ⊢
  generalize skipGap g = r at hstops h ⊢
  obtain ⟨g', e⟩ := r
  cases e with
  | unterminated start => cases h
  | eof => cases h
  | literal start value => exact hstops
  | token =>
    rw [finish] at h ⊢
    split at h
    · cases h
    · rename_i ch t hrest
      have hsolid : Solid ch t := hstops ch t hrest
      dsimp only at h ⊢
      rw [readToken] at h ⊢
      split_ifs at h ⊢ with h1 h2 h3 h4 h5 h6
      · rw [readString] at h
        split at h <;> cases h
      · have hword : isWordByte g'.bracketDepth ch = true := by rw [isWordByte, h6]; rfl
        dsimp only [readIdentifier]
        rw [List.takeWhile_cons_of_pos hword]
        refine .word ch (t.takeWhile (isWordByte g'.bracketDepth)) rfl h6 ?_ ?_
        · intro b hb
          have hb' : isWordByte g'.bracketDepth b = true := List.mem_takeWhile_imp hb
          rw [isWordByte, Bool.or_eq_true, Bool.and_eq_true] at hb'
          exact hb'.imp id And.right
        · rw [opensComment, ← Bool.not_eq_true, Bool.and_eq_true, Bool.or_eq_true, beq_iff_eq,
            beq_iff_eq, beq_iff_eq, List.head?_cons, List.tail_cons]
          rintro ⟨hslash, hsecond⟩
          have hslash' := hsolid.slash (Option.some.inj hslash)
          have hhead : ∀ x, (t.takeWhile (isWordByte g'.bracketDepth)).head? = some x →
              t.head? = some x := by
            intro x hx
            cases t with
            | nil => cases hx
            | cons b t =>
              rw [List.takeWhile_cons] at hx
              split_ifs at hx
              · exact hx
              · cases hx
          rcases hsecond with hx | hx
          · exact hslash'.1 (hhead _ hx)
          · exact hslash'.2 (hhead _ hx)

/-- An endpoint literal reads back as itself at any depth. -/
theorem keyText_literal (d : ℕ) {addr port : Bytes} (hne : addr ≠ [])
    (haddr : ∀ b ∈ addr, isIdentChar b = true) (hport : ∀ b ∈ port, isIdentChar b = true) :
    KeyText d (endpointLiteral addr port) (.identifier, endpointLiteral addr port) := by
  refine ⟨rfl, fun g tail _ htail hrest => ?_⟩
  have hsplit : endpointLiteral addr port ++ tail
      = '['.toUInt8 :: (addr ++ ']'.toUInt8 :: ':'.toUInt8 :: (port ++ tail)) := by
    simp only [endpointLiteral, List.cons_append, List.append_assoc]
  rw [hsplit] at hrest ⊢
  refine scanGap_literal hrest (tryBracketedEndpointLiteral_eq hne haddr hport fun b hb => ?_)
  have hword := delimited_stopsWord 0 htail b hb
  rw [isWordByte, Bool.or_eq_false_iff] at hword
  exact hword.1

/-- **An identifier inside a list** reads back as itself, unless it is a word with a
bracket in it. -/
theorem keyText_listed {k : Bytes} (h : WordShape k) (hsplit : splitsInList k = false) (d : ℕ) :
    KeyText d k (.identifier, k) := by
  cases h with
  | word c w heq head hbytes opens =>
    have hall : ∀ b ∈ k, isIdentChar b = true := by
      intro b hb
      rw [splitsInList, heq, List.head?_cons, Option.any_some, head, Bool.true_and,
        List.any_eq_false] at hsplit
      rw [heq] at hb
      rcases List.mem_cons.mp hb with rfl | hb'
      · exact head
      · exact (hbytes b hb').resolve_right (hsplit b hb)
    exact keyText_word d (heq ▸ List.cons_ne_nil c w) hall opens
  | literal addr port heq hne haddr hport =>
    rw [heq]
    exact keyText_literal d hne haddr hport

/-! ## The layout of a key path

The three render loops differ only in which keys they put inside brackets. -/

/-- The keys of a node in groups, with the decision of the renderer to bracket the
group. -/
def keyLayout (n : NodeHead) : List (Bool × List ℕ) :=
  if dropsBrackets n then
    (keyRuns n (List.range n.keys.length)).map fun r => (r.1 && !omitBrackets n r.2, r.2)
  else if n.isLeaf && maskLen n.keysBracketed == n.keys.length
      && (n.keysBracketed.getD []).contains true then
    keyRuns n (List.range n.keys.length)
  else [(false, List.range n.keys.length)]

/-- How `bracketedLeafKey` writes a key. -/
def listedKind (n : NodeHead) (i : ℕ) : TokenType :=
  if n.keyQuoted i || (n.keys.getD i []).any breaksBareKey then .string else .identifier

/-- The key of a group as the lexer should read it back. -/
def layoutLexeme (n : NodeHead) (isList : Bool) (i : ℕ) : Lexeme :=
  (if isList then listedKind n i else plainKind n i, n.keys.getD i [])

/-- The key of a group as it is written. -/
def layoutPart (n : NodeHead) (isList : Bool) (i : ℕ) : Part :=
  .key (if isList then bracketedLeafKey n i else plainKey n i) (layoutLexeme n isList i)

/-- The parts of a group. -/
def groupParts (n : NodeHead) (group : Bool × List ℕ) : List Part :=
  if group.1 then .opening :: (group.2.map (layoutPart n true) ++ [.closing])
  else group.2.map (layoutPart n false)

/-- The keys of a layout, each with the bracket decision of its group. -/
def flagged (layout : List (Bool × List ℕ)) : List (Bool × ℕ) :=
  layout.flatMap fun group => group.2.map fun i => (group.1, i)

theorem keyRuns_indices (n : NodeHead) (is : List ℕ) : (keyRuns n is).flatMap (·.2) = is := by
  induction is with
  | nil => rfl
  | cons i is ih =>
    rw [keyRuns]
    split
    · rename_i group rest heq
      rw [heq] at ih
      split_ifs
      · rw [← ih]; rfl
      · rw [← ih]; rfl
    · rw [List.flatMap_cons, ih]
      rfl

/-- A layout has every key once, in order. -/
theorem keyLayout_indices (n : NodeHead) :
    (flagged (keyLayout n)).map (·.2) = List.range n.keys.length := by
  have hmap : ∀ layout : List (Bool × List ℕ),
      (flagged layout).map (·.2) = layout.flatMap (·.2) := by
    intro layout
    rw [flagged, List.map_flatMap]
    simp only [List.map_map, Function.comp_def, List.map_id']
  rw [hmap, keyLayout]
  split_ifs
  · rw [List.flatMap_map]
    exact keyRuns_indices n _
  · exact keyRuns_indices n _
  · simp

theorem groupParts_texts (n : NodeHead) (group : Bool × List ℕ) :
    (groupParts n group).map Part.text
      = if group.1 then bracketedParts n group.2 else group.2.map (plainKey n) := by
  rw [groupParts]
  split_ifs with h
  · rw [bracketedParts, List.map_cons, List.map_append, List.map_map]
    rfl
  · rw [List.map_map]
    rfl

/-- A rendered key path is the texts of its parts. -/
theorem formatNodeKeyPath_eq (n : NodeHead) :
    formatNodeKeyPath n
      = join (bytes " ") (((keyLayout n).flatMap (groupParts n)).map Part.text) := by
  have hmap : ∀ layout : List (Bool × List ℕ),
      (layout.flatMap (groupParts n)).map Part.text
        = layout.flatMap fun group =>
            if group.1 then bracketedParts n group.2 else group.2.map (plainKey n) := by
    intro layout
    rw [List.map_flatMap]
    simp only [groupParts_texts]
  rw [hmap, formatNodeKeyPath, keyLayout]
  split_ifs with h1 h2
  · rw [List.flatMap_map]
  · rw [quotedKeyPath, if_pos h2, quotedLeafKeyPath]
  · rw [quotedKeyPath, if_neg h2]
    simp

theorem join_spaced (p : Part) (ps : List Part) :
    ' '.toUInt8 :: join (bytes " ") ((p :: ps).map Part.text) = spaced (p :: ps) := by
  induction ps generalizing p with
  | nil =>
    rw [spaced_cons]
    exact congrArg _ (List.append_nil _).symm
  | cons q qs ih =>
    rw [spaced_cons, ← ih]
    simp only [List.map_cons, join, List.append_assoc]
    rfl

/-! ## Reading a layout back -/

/-- A key that may stand in a list: authored quoted, or a word that does not split
there. -/
def ListedOk (n : NodeHead) (i : ℕ) : Prop :=
  n.keyQuoted i = true ∨ WordShape (n.keys.getD i []) ∧ splitsInList (n.keys.getD i []) = false

theorem isIdentChar_or_bracket_not_breaks {b : UInt8}
    (h : isIdentChar b = true ∨ isBracket b = true) : breaksBareKey b = false := by
  rcases h with h | h
  · simp only [breaksBareKey, Bool.or_eq_false_iff, beq_eq_false_iff_ne]
    exact ⟨⟨⟨⟨⟨⟨⟨isIdentChar_ne h (by decide), isIdentChar_ne h (by decide)⟩,
      isIdentChar_ne h (by decide)⟩, isIdentChar_ne h (by decide)⟩, isIdentChar_ne h (by decide)⟩,
      isIdentChar_ne h (by decide)⟩, isIdentChar_ne h (by decide)⟩, isIdentChar_ne h (by decide)⟩
  · rw [isBracket, Bool.or_eq_true, beq_iff_eq, beq_iff_eq] at h
    rcases h with rfl | rfl <;> decide

theorem wordShape_not_breaks {k : Bytes} (h : WordShape k) : k.any breaksBareKey = false := by
  rw [List.any_eq_false]
  intro b hb
  rw [Bool.not_eq_true]
  refine isIdentChar_or_bracket_not_breaks ?_
  cases h with
  | word c w heq head hbytes opens =>
    rw [heq] at hb
    rcases List.mem_cons.mp hb with rfl | hb
    · exact .inl head
    · exact hbytes b hb
  | literal addr port heq hne haddr hport =>
    rw [heq, endpointLiteral] at hb
    simp only [List.mem_cons, List.mem_append] at hb
    rcases hb with rfl | hb | rfl | rfl | hb
    · exact .inr (by decide)
    · exact .inl (haddr b hb)
    · exact .inr (by decide)
    · exact .inl (by decide)
    · exact .inl (hport b hb)

/-- A key inside a list reads back as itself. -/
theorem keyText_bracketedLeafKey {n : NodeHead} {i : ℕ} (h : ListedOk n i) (d : ℕ) :
    KeyText d (bracketedLeafKey n i) (listedKind n i, n.keys.getD i []) := by
  rw [bracketedLeafKey, listedKind]
  rcases h with h | ⟨hshape, hsplit⟩
  · rw [h, if_pos rfl, Bool.true_or, if_pos rfl]
    exact keyText_quoted d _
  · rw [wordShape_not_breaks hshape, Bool.or_false]
    by_cases hq : n.keyQuoted i = true
    · rw [if_pos hq, if_pos hq]
      exact keyText_quoted d _
    · rw [if_neg hq, if_neg hq, if_neg Bool.false_ne_true]
      exact keyText_listed hshape hsplit d

theorem parts_append {d d' d'' : ℕ} {ps ps' : List Part} {ks ks' : List Lexeme}
    (h : Parts d ps ks d') (h' : Parts d' ps' ks' d'') : Parts d (ps ++ ps') (ks ++ ks') d'' := by
  induction h with
  | nil d => exact h'
  | opening rest ih => exact .opening (ih h')
  | closing rest ih => exact .closing (ih h')
  | key here rest ih => exact .key here (ih h')

theorem parts_map {n : NodeHead} {isList : Bool} {group : List ℕ} {d : ℕ}
    (h : ∀ i ∈ group, KeyText d (if isList then bracketedLeafKey n i else plainKey n i)
      (layoutLexeme n isList i)) :
    Parts d (group.map (layoutPart n isList)) (group.map (layoutLexeme n isList)) d := by
  induction group with
  | nil => exact .nil d
  | cons i group ih =>
    exact .key (h i List.mem_cons_self) (ih fun i hi => h i (List.mem_cons_of_mem _ hi))

/-- **A layout reads back as its keys**, when the keys of its lists may stand there. -/
theorem parts_layout {n : NodeHead} {layout : List (Bool × List ℕ)}
    (h : ∀ group, (true, group) ∈ layout → ∀ i ∈ group, ListedOk n i) :
    Parts 0 (layout.flatMap (groupParts n))
      ((flagged layout).map fun f => layoutLexeme n f.1 f.2) 0 := by
  induction layout with
  | nil => exact .nil 0
  | cons group layout ih =>
    have ih' := ih fun group hg => h group (List.mem_cons_of_mem _ hg)
    have hflag : flagged (group :: layout)
        = (group.2.map fun i => (group.1, i)) ++ flagged layout := rfl
    rw [List.flatMap_cons, hflag, List.map_append, List.map_map]
    refine parts_append ?_ ih'
    obtain ⟨isList, group⟩ := group
    cases isList with
    | false =>
      rw [groupParts, if_neg Bool.false_ne_true]
      exact parts_map fun i _ => (keyText_plainKey 0 n i).1
    | true =>
      rw [groupParts, if_pos rfl]
      have hgroup : Parts 1 (group.map (layoutPart n true)) (group.map (layoutLexeme n true)) 1 :=
        parts_map fun i hi => keyText_bracketedLeafKey (h group List.mem_cons_self i hi) 1
      have hclosed := parts_append hgroup (.closing (.nil 0))
      rw [List.append_nil] at hclosed
      exact .opening hclosed

/-! ## One key in front of any delimiter -/

/-- A byte that ends a word is none that completes the opening of a comment. -/
theorem stopsWord_opensComment {d : ℕ} {w tail : Bytes} (hne : w ≠ []) (h : StopsWord d tail)
    (hopen : opensComment w = false) : opensComment (w ++ tail) = false := by
  match w, hne with
  | [c], _ =>
    rw [opensComment, List.singleton_append, List.tail_cons]
    cases tail with
    | nil =>
      rw [Bool.and_eq_false_iff]
      exact .inr (by decide)
    | cons b t =>
      have hb := h b rfl
      rw [isWordByte, Bool.or_eq_false_iff] at hb
      have hstar : b ≠ '*'.toUInt8 := (isIdentChar_ne (by decide) hb.1).symm
      have hslash : b ≠ '/'.toUInt8 := (isIdentChar_ne (by decide) hb.1).symm
      rw [Bool.and_eq_false_iff]
      refine .inr ?_
      simp [hstar, hslash]
  | c :: c' :: w, _ => exact hopen

/-- What a call of `Next` returns and leaves when the text it is in front of is one key. -/
structure LexesAs (l : Lexer) (kind : TokenType) (value tail : Bytes) : Prop where
  type : l.next.1.type = kind
  value : l.next.1.value = value
  rest : l.next.2.rest = tail
  depth : l.next.2.bracketDepth = l.bracketDepth

theorem lexesAs_of_scan {l : Lexer} {kind : TokenType} {value text tail : Bytes} {marks : Option Bool}
    (h : scanGap (Gap.start l.bracketDepth l.rest)
      = { type := kind, value, start := text, gap := { Gap.start l.bracketDepth l.rest with rest := tail }, marks }) :
    LexesAs l kind value tail := by
  have hscan : l.scan = scanGap (Gap.start l.bracketDepth l.rest) := rfl
  rw [h] at hscan
  refine ⟨?_, ?_, ?_, ?_⟩
  · exact congrArg Scan.type hscan
  · exact congrArg Scan.value hscan
  · rw [next_rest, hscan]
  · rw [next_bracketDepth, hscan]
    rfl

theorem lexesAs_bareKeySafe {l : Lexer} {k tail : Bytes} (h : bareKeySafe k = true)
    (hstop : StopsWord l.bracketDepth tail) (hrest : l.rest = k ++ tail) : LexesAs l .identifier k tail := by
  simp only [bareKeySafe, Bool.and_eq_true, Bool.not_eq_true', List.all_eq_true, beq_iff_eq] at h
  obtain ⟨⟨⟨hempty, hident⟩, ⟨htype, hvalue⟩, -⟩, -⟩ := h
  have hne : k ≠ [] := by
    rintro rfl
    cases hempty
  have hopen : opensComment k = false := by
    rw [← Bool.not_eq_true]
    exact fun hopen => opensComment_scan hident hopen ⟨htype, hvalue⟩
  have hopen' := stopsWord_opensComment hne hstop hopen
  obtain ⟨c, w, rfl⟩ := List.exists_cons_of_ne_nil hne
  apply lexesAs_of_scan
  apply scanGap_word (w := w) hrest (hident c List.mem_cons_self) hopen' _ hstop
  intro b hb
  rw [isWordByte, hident b (List.mem_cons_of_mem _ hb)]
  rfl

/-- **Quoting and lexing.** In any state of the lexer, a key as `quoteKey` writes it and a
delimiter, or the end of the text, give one token with the key as its value and leave the
lexer in front of the delimiter; and a key that `bareKeySafe` accepts gives one identifier
with itself as its value where it is written bare. -/
theorem quoteKey_lexes (l : Lexer) (s tail : Bytes) (hstop : StopsWord l.bracketDepth tail) :
    (l.rest = quoteKey s ++ tail → ∃ kind, isKey kind = true ∧ LexesAs l kind s tail)
      ∧ (bareKeySafe s = true → l.rest = s ++ tail → LexesAs l .identifier s tail) := by
  refine ⟨fun hrest => ?_, fun hsafe hrest => lexesAs_bareKeySafe hsafe hstop hrest⟩
  rw [quoteKey] at hrest
  split_ifs at hrest with hsafe
  · exact ⟨.identifier, rfl, lexesAs_bareKeySafe hsafe hstop hrest⟩
  · refine ⟨.string, rfl, ?_⟩
    have hsplit : quoted s ++ tail = '"'.toUInt8 :: (keyEscaper s ++ '"'.toUInt8 :: tail) := by
      rw [quoted, List.cons_append, List.append_assoc]
      rfl
    rw [hsplit] at hrest
    apply lexesAs_of_scan
    exact scanGap_string hrest (readStringLoop_keyEscaper s tail)

theorem quoteKey_lexes_comment :
    LexesAs (newLexer (bytes "\"//x\";")) .string (bytes "//x") (bytes ";") := by
  obtain ⟨kind, -, hlexes⟩ := (quoteKey_lexes (newLexer (bytes "\"//x\";")) (bytes "//x") (bytes ";")
    (by intro b hb; obtain rfl := Option.some.inj hb; decide)).1 (by decide +kernel)
  exact ⟨by decide +kernel, hlexes.value, hlexes.rest, hlexes.depth⟩

end Xpf.ConfigKeyPath
