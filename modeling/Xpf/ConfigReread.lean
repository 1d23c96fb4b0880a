/-
`ConfigReread.lean` -- the masks of a statement that is written and read again.

Reading a formatted statement back gives its keys (`ConfigStatement.lean`). What it is
written as the next time depends on more: on which keys were quoted, which stood in a
list, and whether the lists were closed. Here the key loop of the parser is followed once
more over a rendered key path, with every token it makes: `keysLoop_parts` and
`parseKeys_parts`. The statement that is read has the list marks of the layout it was
written in, so it is laid out the same way again (`formatNodeKeyPath_reread`), with one
exception: a `from prefix-list` list that was never closed is written with its closing
bracket, and is then one of those `formatNodeKeyPath` drops the brackets of.
-/
import Mathlib.Data.List.Chain
import Xpf.ConfigRoundTrip

set_option autoImplicit false

namespace Xpf.ConfigReread

open Xpf.Loop Xpf.GoStrings Xpf.ConfigLexer Xpf.ConfigLexing Xpf.ConfigComment Xpf.ConfigAst
open Xpf.ConfigParser Xpf.ConfigGrammar Xpf.ConfigFormat Xpf.ConfigReparse Xpf.ConfigKeyPath
open Xpf.ConfigAccepted Xpf.ConfigCanonical Xpf.ConfigStatement

/-! ## The tokens of a key path -/

/-- A `[`. -/
def Part.opens : Part → Bool
  | .opening => true
  | _ => false

/-- A `]`. -/
def Part.closes : Part → Bool
  | .closing => true
  | _ => false

/-- The key tokens of a sequence of parts that starts at bracket depth `d`. -/
def partToks : ℕ → List Part → List KeyTok
  | _, [] => []
  | d, .opening :: ps => partToks (d + 1) ps
  | d, .closing :: ps => partToks (d - 1) ps
  | d, .key _ k :: ps => ⟨k.2, k.1, decide (0 < d)⟩ :: partToks d ps

/-- No list of a sequence of parts is empty. -/
def NoEmptyList (ps : List Part) : Prop :=
  ps.IsChain fun p q => Part.opens p = true → Part.closes q = false

/-- A gap that has lost no brackets so far, and does not if the parts `ps` follow. -/
structure Lossless (g : Gap) (ps : List Part) : Prop where
  loss : g.gapLoss = false
  opened : g.sawOpenAtZero = true → ∀ p ∈ ps.head?, Part.closes p = false
  lists : NoEmptyList ps

theorem Lossless.opened_rest {g : Gap} {ps : List Part} (h : Lossless g (.opening :: ps)) (s : Bytes) :
    Lossless (Gap.opened g s) ps := by
  refine ⟨h.loss, fun _ p hp => ?_, List.IsChain.of_cons h.lists⟩
  obtain ⟨qs, rfl⟩ := List.head?_eq_some_iff.mp hp
  exact (List.isChain_cons_cons.mp h.lists).1 rfl

theorem Lossless.closed_rest {g : Gap} {ps : List Part} (h : Lossless g (.closing :: ps)) (s : Bytes)
    (hpos : 0 < g.bracketDepth) : Lossless (Gap.closed g s) ps := by
  have hopen : g.sawOpenAtZero = false := by
    refine Bool.eq_false_iff.mpr fun hopen => ?_
    cases h.opened hopen .closing rfl
  rw [Gap.closed, if_pos hpos]
  refine ⟨?_, ?_, List.IsChain.of_cons h.lists⟩
  · dsimp only
    rw [h.loss, hopen, Bool.and_false]
    rfl
  · intro hsaw
    rw [hopen] at hsaw
    cases hsaw

theorem Lossless.start {ps : List Part} (h : NoEmptyList ps) (d : ℕ) (s : Bytes) :
    Lossless (Gap.start d s) ps := ⟨rfl, (by rintro ⟨⟩), h⟩

/-- A key behind a gap that has lost nothing. -/
theorem scanGap_key {g : Gap} {ps : List Part} {tail text : Bytes} {k : Lexeme}
    (htail : Delimited tail) (here : KeyText g.bracketDepth text k) (hloss : g.gapLoss = false)
    (hrest : g.rest = spaced (.key text k :: ps) ++ tail) :
    scanGap g = { type := k.1, value := k.2, start := text ++ (spaced ps ++ tail)
                  gap := { g with rest := spaced ps ++ tail }
                  marks := some (decide (0 < g.bracketDepth)) } := by
  have hrest' : g.rest = ' '.toUInt8 :: (text ++ (spaced ps ++ tail)) := by
    rw [hrest, spaced_cons, List.cons_append, List.append_assoc]
    rfl
  have hkey := here.2 { g with rest := text ++ (spaced ps ++ tail) } (spaced ps ++ tail) rfl
    (delimited_spaced ps htail) rfl
  rw [scanGap_blank hrest' (by decide), hkey, Gap.inBracket]
  dsimp only
  rw [hloss, Bool.or_false]

/-- **The key loop over the parts of a key path** makes the tokens of the parts. -/
theorem keysLoop_parts {d d' : ℕ} {ps : List Part} {ks : List Lexeme} (h : Parts d ps ks d')
    {tail : Bytes} (htail : Delimited tail) :
    ∀ (g : Gap) (st : KeysState), g.bracketDepth = d → Lossless g ps →
      g.rest = spaced ps ++ tail → st.parser.lexer.scan = scanGap g →
      st.parser.nodes + st.keys.length + ks.length ≤ maxParseNodes →
      ∃ (l : Lexer) (g' : Gap) (sawClose : Bool),
        keysLoop st
            = keysLoop ⟨{ st.parser with lexer := l }, st.keys ++ partToks d ps, sawClose⟩
          ∧ l.scan = scanGap g' ∧ g'.rest = tail ∧ g'.gapLoss = false := by
  induction h with
  | nil d =>
    intro g st hdepth hloss hrest hscan _
    refine ⟨st.parser.lexer, g, st.sawClose, ?_, hscan, hrest, hloss.loss⟩
    rw [partToks, List.append_nil]
  | @opening d d' ps ks rest ih =>
    intro g st hdepth hloss hrest hscan hbud
    exact ih (Gap.opened g (spaced ps ++ tail)) st (congrArg (· + 1) hdepth) (hloss.opened_rest _) rfl
      (hscan.trans (scanGap_opening htail hrest)) hbud
  | @closing d d' ps ks rest ih =>
    intro g st hdepth hloss hrest hscan hbud
    have hpos : 0 < g.bracketDepth := by rw [hdepth]; exact Nat.succ_pos d
    have hdepth' : (Gap.closed g (spaced ps ++ tail)).bracketDepth = d := by
      rw [Gap.closed, if_pos hpos]
      dsimp only
      rw [hdepth, Nat.add_sub_cancel]
    have hih := ih (Gap.closed g (spaced ps ++ tail)) st hdepth' (hloss.closed_rest _ hpos)
      (closed_rest _ _) (hscan.trans (scanGap_closing hrest)) hbud
    rw [partToks, Nat.add_sub_cancel]
    exact hih
  | @key d d' ps ks text k here rest ih =>
    intro g st hdepth hloss hrest hscan hbud
    subst hdepth
    have hkey := hscan.trans (scanGap_key htail here hloss.loss hrest)
    have htype : st.parser.lexer.peek.1.type = k.1 := congrArg Scan.type hkey
    have hvalue : st.parser.lexer.peek.1.value = k.2 := congrArg Scan.value hkey
    let l := st.parser.lexer.peek.2.next.2
    have hdepth : l.bracketDepth = g.bracketDepth := congrArg (fun t => t.gap.bracketDepth) hkey
    have hrest' : l.rest = spaced ps ++ tail := congrArg (fun t => t.gap.rest) hkey
    have hmark : l.tokInBracket = decide (0 < g.bracketDepth) :=
      congrArg (fun t => t.marks.getD st.parser.lexer.peek.2.tokInBracket) hkey
    rw [List.length_cons] at hbud
    let st' : KeysState := ⟨{ st.parser with lexer := l },
      st.keys ++ [⟨k.2, k.1, decide (0 < g.bracketDepth)⟩],
      st.sawClose || st.parser.peek.2.lexer.gapClosed || l.gapClosed⟩
    have hstep : keysStep st = .inl st' := by
      rw [keysStep]
      dsimp only
      have hcap : ¬ maxParseNodes ≤ st.parser.peek.2.nodes + st.keys.length :=
        Nat.not_le.mpr (show st.parser.nodes + st.keys.length < maxParseNodes by omega)
      rw [if_pos (by rw [Parser.peek_fst, htype]; exact here.1), if_neg hcap]
      have hnext : st.parser.peek.2.next.2 = { st.parser with lexer := l } := rfl
      rw [hnext]
      dsimp only
      rw [hmark, Parser.peek_fst, htype, hvalue]
    have hlen : st'.keys.length = st.keys.length + 1 := by simp [st']
    obtain ⟨l', g', sawClose, hloop, hl, hr, hgap⟩ :=
      ih (Gap.start g.bracketDepth (spaced ps ++ tail)) st' rfl
        (Lossless.start (List.IsChain.of_cons hloss.lists) _ _) rfl
        (by rw [← scan_eq_scanGap, ← hdepth, ← hrest']; rfl) (by rw [hlen]; dsimp only [st']; omega)
    refine ⟨l', g', sawClose, ?_, hl, hr, hgap⟩
    have hstart : keysLoop st = keysLoop st' := run_inl keysStep_dec hstep
    rw [hstart, hloop, partToks]
    dsimp only [st']
    rw [List.append_assoc]
    rfl

/-! ## The keys of a statement -/

theorem partToks_lexemes {d d' : ℕ} {ps : List Part} {ks : List Lexeme} (h : Parts d ps ks d') :
    lexemes (partToks d ps) = ks := by
  induction h with
  | nil d => rfl
  | opening rest ih => exact ih
  | @closing d d' ps ks rest ih =>
    rw [partToks, Nat.add_sub_cancel]
    exact ih
  | key here rest ih =>
    rw [partToks, ← ih]
    rfl

/-- A text that ends the keys in front of it and loses no brackets. -/
structure EndsKeys (tail : Bytes) : Prop where
  delimited : Delimited tail
  scan : ∀ g : Gap, g.rest = tail →
    isKey (scanGap g).type = false ∧ (scanGap g).gap.gapLoss = g.gapLoss

theorem markLast_false (toks : List KeyTok) : markLast false toks = toks := by
  rw [markLast]
  cases hlast : toks.getLast? with
  | none => rfl
  | some k =>
    dsimp only
    rw [Bool.or_false]
    obtain ⟨front, rfl⟩ := List.getLast?_eq_some_iff.mp hlast
    rw [List.dropLast_concat]

/-- **`parseKeys` over the parts of a key path**, in front of a gap without brackets. -/
theorem parseKeys_parts {ps : List Part} {ks : List Lexeme} (h : Parts 0 ps ks 0)
    (hlists : NoEmptyList ps) {tail : Bytes} (hend : EndsKeys tail) {g : Gap} {p : Parser}
    (hdepth : g.bracketDepth = 0) (hfresh : FreshGap g) (hrest : g.rest = spaced ps ++ tail)
    (hscan : p.lexer.scan = scanGap g) (hbud : p.nodes + ks.length ≤ maxParseNodes) :
    (parseKeys p).1 = partToks 0 ps := by
  have hloss : Lossless g ps := by
    refine ⟨hfresh.loss, fun hopen => ?_, hlists⟩
    rw [hfresh.opened] at hopen
    cases hopen
  obtain ⟨l, g', sawClose, hloop, hl, hr, hgap⟩ :=
    keysLoop_parts h hend.delimited g ⟨p, [], false⟩ hdepth hloss hrest hscan
      (by rw [List.length_nil]; exact hbud)
  obtain ⟨hkey, hlossEnd⟩ := hend.scan g' hr
  rw [← hl] at hkey hlossEnd
  let st : KeysState := ⟨{ p with lexer := l }, [] ++ partToks 0 ps, sawClose⟩
  have hstep : keysStep st = .inr ⟨st.parser.peek.2, st.keys,
      st.sawClose || st.parser.peek.2.lexer.gapClosed⟩ := by
    rw [keysStep]
    dsimp only
    rw [if_neg]
    rw [Parser.peek_fst, peek_type, hkey]
    rintro ⟨⟩
  have hkeys : keysLoop ⟨p, [], false⟩ = ⟨{ p with lexer := l.peek.2 }, partToks 0 ps,
      sawClose || l.peek.2.gapClosed⟩ := by
    rw [hloop, keysLoop, run_inr hstep]
    rfl
  rw [parseKeys, hkeys]
  dsimp only
  rw [peek_gapLoss, hlossEnd, hgap, markLast_false]

/-! ## The tokens of a layout -/

/-- The token a key is read as, in a list or not. -/
def layoutTok (n : NodeHead) (isList : Bool) (i : ℕ) : KeyTok :=
  ⟨n.keys.getD i [], (layoutLexeme n isList i).1, isList⟩

/-- The tokens of the key path of a node. -/
def pathToks (n : NodeHead) : List KeyTok :=
  (flagged (keyLayout n)).map fun f => layoutTok n f.1 f.2

theorem partToks_append {d d' : ℕ} {ps : List Part} {ks : List Lexeme} (h : Parts d ps ks d')
    (ps' : List Part) : partToks d (ps ++ ps') = partToks d ps ++ partToks d' ps' := by
  induction h with
  | nil d => rfl
  | opening rest ih => exact ih
  | @closing d d' ps ks rest ih =>
    rw [List.cons_append, partToks, partToks, Nat.add_sub_cancel, ih]
  | key here rest ih => rw [List.cons_append, partToks, partToks, ih, List.cons_append]

theorem partToks_keys (n : NodeHead) (isList : Bool) (d : ℕ) (hd : decide (0 < d) = isList)
    (group : List ℕ) (ps : List Part) :
    partToks d (group.map (layoutPart n isList) ++ ps)
      = group.map (layoutTok n isList) ++ partToks d ps := by
  induction group with
  | nil => rfl
  | cons i group ih =>
    rw [List.map_cons, List.cons_append, layoutPart, partToks, ih, hd]
    rfl

theorem partToks_layout (n : NodeHead) (layout : List (Bool × List ℕ)) :
    partToks 0 (layout.flatMap (groupParts n))
      = (flagged layout).map fun f => layoutTok n f.1 f.2 := by
  induction layout with
  | nil => rfl
  | cons group layout ih =>
    have hflag : flagged (group :: layout)
        = (group.2.map fun i => (group.1, i)) ++ flagged layout := rfl
    rw [List.flatMap_cons, hflag, List.map_append, List.map_map, ← ih]
    obtain ⟨isList, group⟩ := group
    cases isList with
    | false =>
      rw [groupParts, if_neg Bool.false_ne_true, partToks_keys n false 0 rfl]
      rfl
    | true =>
      rw [groupParts, if_pos rfl, List.cons_append, partToks, List.append_assoc,
        partToks_keys n true 1 rfl]
      rfl

/-- No group of a layout is empty. -/
def Filled (layout : List (Bool × List ℕ)) : Prop := ∀ group ∈ layout, group.2 ≠ []

/-- Keys among themselves. -/
theorem noEmptyList_keys (n : NodeHead) (isList : Bool) (group : List ℕ) :
    NoEmptyList (group.map (layoutPart n isList)) := by
  induction group with
  | nil => exact .nil
  | cons i group ih =>
    cases group with
    | nil => exact .singleton _
    | cons j group => exact List.isChain_cons_cons.mpr ⟨(by rintro ⟨⟩), ih⟩

theorem noEmptyList_group (n : NodeHead) {group : Bool × List ℕ} (h : group.2 ≠ []) :
    NoEmptyList (groupParts n group)
      ∧ ∀ p ∈ (groupParts n group).getLast?, Part.opens p = false := by
  obtain ⟨isList, group⟩ := group
  cases isList with
  | false =>
    rw [groupParts, if_neg Bool.false_ne_true]
    refine ⟨noEmptyList_keys n false group, fun p hp => ?_⟩
    obtain ⟨i, -, rfl⟩ := List.mem_map.mp (List.mem_of_getLast? hp)
    rfl
  | true =>
    obtain ⟨i, group, rfl⟩ := List.exists_cons_of_ne_nil h
    rw [groupParts, if_pos rfl]
    constructor
    · refine List.isChain_cons_cons.mpr ⟨fun _ => rfl, ?_⟩
      refine List.isChain_append.mpr ⟨noEmptyList_keys n true (i :: group), .singleton _, ?_⟩
      intro p hp q _ hopen
      obtain ⟨j, -, rfl⟩ := List.mem_map.mp (List.mem_of_getLast? hp)
      cases hopen
    · intro p hp
      rw [← List.cons_append, List.getLast?_concat] at hp
      obtain rfl := Option.some.inj hp
      rfl

theorem noEmptyList_layout (n : NodeHead) {layout : List (Bool × List ℕ)} (h : Filled layout) :
    NoEmptyList (layout.flatMap (groupParts n)) := by
  induction layout with
  | nil => exact .nil
  | cons group layout ih =>
    obtain ⟨hgroup, hlast⟩ := noEmptyList_group n (h group List.mem_cons_self)
    rw [List.flatMap_cons]
    refine List.isChain_append.mpr ⟨hgroup, ih fun g hg => h g (List.mem_cons_of_mem _ hg), ?_⟩
    intro p hp q _ hopen
    rw [hlast p hp] at hopen
    cases hopen

/-! ## Layouts -/

/-- A layout as the render loops make it: no group is empty, and two lists are never next
to each other. -/
structure Separated (layout : List (Bool × List ℕ)) : Prop where
  filled : Filled layout
  apart : layout.IsChain fun g g' => g.1 = true → g'.1 = false

/-- The runs of a flagged sequence of keys, as `keyRuns` makes them. -/
def regroup : List (Bool × ℕ) → List (Bool × List ℕ)
  | [] => []
  | (b, i) :: fs =>
    match regroup fs with
    | (true, group) :: rest =>
      if b then (true, i :: group) :: rest else (false, [i]) :: (true, group) :: rest
    | rest => (b, [i]) :: rest

theorem keyRuns_eq_regroup (n : NodeHead) (is : List ℕ) :
    keyRuns n is = regroup (is.map fun i => (n.keyBracketed i, i)) := by
  induction is with
  | nil => rfl
  | cons i is ih =>
    rw [keyRuns, List.map_cons, regroup, ih] <;> rfl

/-- A key outside the lists is a group of its own. -/
theorem regroup_plain (i : ℕ) (fs : List (Bool × ℕ)) :
    regroup ((false, i) :: fs) = (false, [i]) :: regroup fs := by
  rw [regroup]
  split
  · rename_i group rest heq
    rw [heq]
    rfl
  · rfl

/-- A key in a list joins the list behind it, if there is one. -/
theorem regroup_listed (i : ℕ) (fs : List (Bool × ℕ)) :
    (∃ group rest, regroup fs = (true, group) :: rest
        ∧ regroup ((true, i) :: fs) = (true, i :: group) :: rest)
      ∨ (∀ g ∈ (regroup fs).head?, g.1 = false)
        ∧ regroup ((true, i) :: fs) = (true, [i]) :: regroup fs := by
  rw [regroup]
  split
  · rename_i group rest heq
    exact .inl ⟨group, rest, heq, rfl⟩
  · rename_i hnot
    refine .inr ⟨fun g hg => ?_, rfl⟩
    obtain ⟨rest, hrest⟩ := List.head?_eq_some_iff.mp hg
    obtain ⟨isList, group⟩ := g
    cases isList with
    | false => rfl
    | true => exact absurd hrest (hnot group rest)

theorem regroup_separated (fs : List (Bool × ℕ)) : Separated (regroup fs) := by
  induction fs with
  | nil => exact ⟨(by rintro _ ⟨⟩), .nil⟩
  | cons f fs ih =>
    obtain ⟨b, i⟩ := f
    cases b with
    | false =>
      rw [regroup_plain]
      refine ⟨List.forall_mem_cons.mpr ⟨List.cons_ne_nil i [], ih.filled⟩, ?_⟩
      exact List.isChain_cons.mpr ⟨(by rintro _ _ ⟨⟩), ih.apart⟩
    | true =>
      rcases regroup_listed i fs with ⟨group, rest, heq, hcons⟩ | ⟨hhead, hcons⟩
      · rw [heq] at ih
        rw [hcons]
        refine ⟨List.forall_mem_cons.mpr ⟨List.cons_ne_nil i group, ?_⟩, ?_⟩
        · exact fun g hg => ih.filled g (List.mem_cons_of_mem _ hg)
        · obtain ⟨hnext, hrest⟩ := List.isChain_cons.mp ih.apart
          exact List.isChain_cons.mpr ⟨hnext, hrest⟩
      · rw [hcons]
        refine ⟨List.forall_mem_cons.mpr ⟨List.cons_ne_nil i [], ih.filled⟩, ?_⟩
        exact List.isChain_cons.mpr ⟨fun g hg _ => hhead g hg, ih.apart⟩

/-- Regrouping keeps the keys and their flags. -/
theorem flagged_regroup (fs : List (Bool × ℕ)) : flagged (regroup fs) = fs := by
  induction fs with
  | nil => rfl
  | cons f fs ih =>
    obtain ⟨b, i⟩ := f
    cases b with
    | false =>
      rw [regroup_plain]
      exact congrArg _ ih
    | true =>
      rcases regroup_listed i fs with ⟨group, rest, heq, hcons⟩ | ⟨-, hcons⟩
      · rw [heq] at ih
        rw [hcons, ← ih]
        rfl
      · rw [hcons]
        exact congrArg _ ih

/-- A group with its keys apart, unless it is a list. -/
def singles (group : Bool × List ℕ) : List (Bool × List ℕ) :=
  if group.1 then [group] else group.2.map fun i => (false, [i])

theorem regroup_keys (group : List ℕ) (fs : List (Bool × ℕ)) :
    regroup ((group.map fun i => (false, i)) ++ fs)
      = (group.map fun i => (false, [i])) ++ regroup fs := by
  induction group with
  | nil => rfl
  | cons i group ih => rw [List.map_cons, List.cons_append, regroup_plain, ih]; rfl

theorem regroup_list {group : List ℕ} (hne : group ≠ []) {fs : List (Bool × ℕ)}
    (hhead : ∀ g ∈ (regroup fs).head?, g.1 = false) :
    regroup ((group.map fun i => (true, i)) ++ fs) = (true, group) :: regroup fs := by
  induction group with
  | nil => exact absurd rfl hne
  | cons i group ih =>
    rw [List.map_cons, List.cons_append]
    cases group with
    | nil =>
      rcases regroup_listed i fs with ⟨group, rest, heq, -⟩ | ⟨-, hcons⟩
      · rw [heq] at hhead
        cases hhead _ rfl
      · exact hcons
    | cons j group =>
      have ih' := ih (List.cons_ne_nil j group)
      rcases regroup_listed i (((j :: group).map fun i => (true, i)) ++ fs) with
        ⟨group', rest, heq, hcons⟩ | ⟨hnot, -⟩
      · rw [ih'] at heq
        obtain ⟨hgroup, hrest⟩ := List.cons.inj heq
        obtain rfl : j :: group = group' := congrArg Prod.snd hgroup
        rw [hcons, ← hrest]
      · rw [ih'] at hnot
        cases hnot _ rfl

/-- **The groups of a separated layout can be read off the flags of its keys.** -/
theorem regroup_flagged {layout : List (Bool × List ℕ)} (h : Separated layout) :
    regroup (flagged layout) = layout.flatMap singles := by
  induction layout with
  | nil => rfl
  | cons group layout ih =>
    have htail : Separated layout :=
      ⟨fun g hg => h.filled g (List.mem_cons_of_mem _ hg), h.apart.of_cons⟩
    have hflag : flagged (group :: layout)
        = (group.2.map fun i => (group.1, i)) ++ flagged layout := rfl
    rw [hflag, List.flatMap_cons, ← ih htail]
    have hnext := (List.isChain_cons.mp h.apart).1
    have hne := h.filled group List.mem_cons_self
    obtain ⟨isList, group⟩ := group
    cases isList with
    | false =>
      rw [singles, if_neg Bool.false_ne_true]
      exact regroup_keys group _
    | true =>
      rw [singles, if_pos rfl]
      refine regroup_list hne fun g hg => ?_
      -- what follows a list starts with a key of its own
      rw [ih htail] at hg
      cases layout with
      | nil => cases hg
      | cons next layout =>
        have hplain : next.1 = false := hnext next rfl rfl
        have hfilled := htail.filled next List.mem_cons_self
        obtain ⟨isList, keys⟩ := next
        obtain ⟨i, keys, rfl⟩ := List.exists_cons_of_ne_nil hfilled
        dsimp only at hplain
        subst hplain
        obtain rfl := Option.some.inj hg
        rfl

theorem separated_keyLayout {n : NodeHead} (hkeys : n.keys ≠ []) : Separated (keyLayout n) := by
  have hruns : Separated (keyRuns n (List.range n.keys.length)) := by
    rw [keyRuns_eq_regroup]
    exact regroup_separated _
  rw [keyLayout]
  split_ifs
  · constructor
    · intro group hgroup
      obtain ⟨r, hr, rfl⟩ := List.mem_map.mp hgroup
      exact hruns.filled r hr
    · refine (List.isChain_map _).mpr (hruns.apart.imp fun g g' hnext hlist => ?_)
      rw [hnext (Bool.and_eq_true_iff.mp hlist).1]
      rfl
  · exact hruns
  · refine ⟨fun group hgroup => ?_, .singleton _⟩
    obtain rfl := List.mem_singleton.mp hgroup
    intro hnil
    exact hkeys (List.length_eq_zero_iff.mp (List.range_eq_nil.mp hnil))

/-- The texts of a group. -/
def groupTexts (n : NodeHead) (group : Bool × List ℕ) : List Bytes :=
  if group.1 then bracketedParts n group.2 else group.2.map (plainKey n)

theorem formatNodeKeyPath_texts (n : NodeHead) :
    formatNodeKeyPath n = join (bytes " ") ((keyLayout n).flatMap (groupTexts n)) := by
  rw [formatNodeKeyPath_eq, List.map_flatMap]
  simp only [groupParts_texts]
  rfl

/-- The texts of a layout depend on the flags of its keys only. -/
theorem texts_regroup (n : NodeHead) {layout : List (Bool × List ℕ)} (h : Separated layout) :
    layout.flatMap (groupTexts n) = (regroup (flagged layout)).flatMap (groupTexts n) := by
  rw [regroup_flagged h, List.flatMap_assoc]
  refine congrArg (fun f => layout.flatMap f) (funext fun group => ?_)
  rw [singles, groupTexts]
  split_ifs with hlist
  · rw [List.flatMap_singleton, groupTexts, if_pos hlist]
  · rw [List.flatMap_map, List.map_eq_flatMap]
    rfl

/-! ## A statement that is read again -/

/-- Whether a key is written in a list. -/
def listed (n : NodeHead) (i : ℕ) : Bool := ((flagged (keyLayout n)).getD i (false, 0)).1

theorem flagged_keyLayout (n : NodeHead) :
    flagged (keyLayout n) = (List.range n.keys.length).map fun i => (listed n i, i) := by
  have hindices := keyLayout_indices n
  have hlen : (flagged (keyLayout n)).length = n.keys.length := by
    have hlen := congrArg List.length hindices
    rwa [List.length_map, List.length_range] at hlen
  refine List.ext_getElem (by simp [hlen]) fun i hi hi' => ?_
  have hsnd : ((flagged (keyLayout n))[i]).2 = i := by
    have hget := congrArg (fun l => l[i]?) hindices
    rw [List.getElem?_map, List.getElem?_eq_getElem hi, List.getElem?_range (by omega)] at hget
    exact Option.some.inj hget
  rw [List.getElem_map, List.getElem_range, listed, List.getD_eq_getElem?_getD,
    List.getElem?_eq_getElem hi, Option.getD_some]
  exact Prod.ext rfl hsnd

theorem pathToks_eq (n : NodeHead) :
    pathToks n = (List.range n.keys.length).map fun i => layoutTok n (listed n i) i := by
  rw [pathToks, flagged_keyLayout, List.map_map]
  rfl

/-- The list of a `from prefix-list` leaf was never closed, and is one whose brackets are
dropped as soon as it is. -/
def dropsOnceClosed (n : NodeHead) : Bool :=
  !n.bracketedClosed && dropsBrackets { n with bracketedClosed := true }
    && (keyRuns n (List.range n.keys.length)).any fun r => r.1 && omitBrackets n r.2

/-- `head` is what reading the written statement of `n` gives. -/
structure RereadAs (n head : NodeHead) : Prop where
  keys : head.keys = n.keys
  leaf : head.isLeaf = n.isLeaf
  quoted : ∀ i < n.keys.length,
    head.keyQuoted i = ((layoutLexeme n (listed n i) i).1 == .string)
  bracketed : ∀ i < n.keys.length, head.keyBracketed i = listed n i

theorem rereadAs_keysHead {n base : NodeHead} (hleaf : base.isLeaf = n.isLeaf) :
    RereadAs n (keysHead (pathToks n) base) := by
  have hvalues : (pathToks n).map KeyTok.value = n.keys := by
    have hlex : lexemes (pathToks n) = pathLexemes n := by
      rw [pathToks, pathLexemes, lexemes, List.map_map]
      rfl
    rw [lexemes_values hlex, pathLexemes_values]
  have hkeys : (keysHead (pathToks n) base).keys = n.keys := by rw [keysHead_keys, hvalues]
  refine ⟨hkeys, hleaf, fun i hi => ?_, fun i hi => ?_⟩
  · rw [keyQuoted_keysHead, pathToks_eq, List.map_map, List.getD_eq_getElem?_getD,
      List.getElem?_map, List.getElem?_range hi]
    rfl
  · rw [keyBracketed_keysHead, pathToks_eq, List.map_map, List.getD_eq_getElem?_getD,
      List.getElem?_map, List.getElem?_range hi]
    rfl

section

variable {n : Node} {head : NodeHead}

/-- A key in a list is quoted again exactly if it was. -/
theorem RereadAs.quoted_listed (h : RereadAs n.toNodeHead head) (hok : NodeOk n) {i : ℕ}
    (hi : i < n.keys.length) (hlist : listed n.toNodeHead i = true) :
    head.keyQuoted i = n.keyQuoted i := by
  rw [h.quoted i hi, layoutLexeme, hlist, if_pos rfl, listedKind]
  by_cases hq : n.keyQuoted i = true
  · rw [hq]
    rfl
  · have hshape := hok.words i hi (Bool.eq_false_iff.mpr hq)
    rw [wordShape_not_breaks hshape, Bool.eq_false_iff.mpr hq]
    rfl

/-- A key in a list is written the same way again. -/
theorem RereadAs.bracketedLeafKey_eq (h : RereadAs n.toNodeHead head) (hok : NodeOk n) {i : ℕ}
    (hi : i < n.keys.length) (hlist : listed n.toNodeHead i = true) :
    bracketedLeafKey head i = bracketedLeafKey n.toNodeHead i := by
  rw [bracketedLeafKey, bracketedLeafKey, h.keys, h.quoted_listed hok hi hlist]

/-- So is a key outside the lists: it is quoted again where the quotes decide something. -/
theorem RereadAs.plainKey_eq (h : RereadAs n.toNodeHead head) {i : ℕ} (hi : i < n.keys.length)
    (hlist : listed n.toNodeHead i = false) : plainKey head i = plainKey n.toNodeHead i := by
  have hquoted : head.keyQuoted i = (plainKind n.toNodeHead i == .string) := by
    rw [h.quoted i hi, layoutLexeme, hlist, if_neg Bool.false_ne_true]
  by_cases hneeds : keyNeedsAuthoredQuote n.toNodeHead i = true
  · -- the position that made the quotes necessary is still the same
    have hneeds' : keyNeedsAuthoredQuote head i = true := by
      rw [plainKind, if_pos hneeds] at hquoted
      rw [keyNeedsAuthoredQuote] at hneeds ⊢
      rw [h.keys, hquoted]
      simp only [Bool.and_eq_true] at hneeds ⊢
      exact ⟨⟨hneeds.1.1, rfl⟩, hneeds.2⟩
    rw [plainKey, plainKey, if_pos hneeds, if_pos hneeds', h.keys]
  · rw [plainKind, if_neg hneeds] at hquoted
    rw [plainKey, plainKey, if_neg hneeds, h.keys]
    by_cases hsafe : bareKeySafe (n.keys.getD i []) = true
    · rw [if_pos hsafe] at hquoted
      have hneeds' : keyNeedsAuthoredQuote head i = false := by
        rw [keyNeedsAuthoredQuote, hquoted]
        simp
      rw [hneeds', if_neg Bool.false_ne_true]
    · rw [quoteKey, if_neg hsafe]
      split_ifs <;> rfl

theorem mem_regroup_flagged {fs : List (Bool × ℕ)} {group : Bool × List ℕ} (hgroup : group ∈ regroup fs)
    {i : ℕ} (hi : i ∈ group.2) : (group.1, i) ∈ fs := by
  have hmem := @mem_flagged (regroup fs) group.1 group.2 i hgroup hi
  rwa [flagged_regroup] at hmem

theorem mem_flagged_keyLayout {f : Bool × ℕ} (hf : f ∈ flagged (keyLayout n.toNodeHead)) :
    f.2 < n.keys.length ∧ listed n.toNodeHead f.2 = f.1 := by
  rw [flagged_keyLayout] at hf
  obtain ⟨i, hi, rfl⟩ := List.mem_map.mp hf
  exact ⟨List.mem_range.mp hi, rfl⟩

/-- **Written in the same layout, the statement is the same text.** -/
theorem RereadAs.formatNodeKeyPath_eq (h : RereadAs n.toNodeHead head) (hok : NodeOk n)
    (hlayout : flagged (keyLayout head) = flagged (keyLayout n.toNodeHead)) :
    formatNodeKeyPath head = formatNodeKeyPath n.toNodeHead := by
  have hkeys : head.keys ≠ [] := by
    rw [h.keys]
    exact hok.keys
  rw [formatNodeKeyPath_texts, formatNodeKeyPath_texts, texts_regroup _ (separated_keyLayout hkeys),
    texts_regroup _ (separated_keyLayout hok.keys), hlayout]
  refine congrArg (join (bytes " ")) (List.flatMap_congr fun group hgroup => ?_)
  have hmem : ∀ i ∈ group.2, i < n.keys.length ∧ listed n.toNodeHead i = group.1 :=
    fun i hi => mem_flagged_keyLayout (mem_regroup_flagged hgroup hi)
  rw [groupTexts, groupTexts]
  split_ifs with hlist
  · rw [bracketedParts, bracketedParts]
    have htexts : group.2.map (bracketedLeafKey head) = group.2.map (bracketedLeafKey n.toNodeHead) :=
      List.map_congr_left fun i hi =>
        h.bracketedLeafKey_eq hok (hmem i hi).1 ((hmem i hi).2.trans hlist)
    rw [htexts]
  · exact List.map_congr_left fun i hi =>
      h.plainKey_eq (hmem i hi).1 ((hmem i hi).2.trans (Bool.eq_false_iff.mpr hlist))

/-! ## The layout the second time -/

/-- The runs of the keys that are read are the groups that were written. -/
theorem RereadAs.keyRuns_eq (h : RereadAs n.toNodeHead head) :
    keyRuns head (List.range head.keys.length) = regroup (flagged (keyLayout n.toNodeHead)) := by
  rw [keyRuns_eq_regroup, flagged_keyLayout, h.keys]
  refine congrArg regroup (List.map_congr_left fun i hi => ?_)
  rw [h.bracketed i (List.mem_range.mp hi)]

theorem mem_singles {group : Bool × List ℕ} {is : List ℕ} (h : (true, is) ∈ singles group) :
    group = (true, is) := by
  rw [singles] at h
  split_ifs at h
  · exact (List.mem_singleton.mp h).symm
  · obtain ⟨i, -, heq⟩ := List.mem_map.mp h
    cases congrArg Prod.fst heq

/-- A list that is read was a list of the layout. -/
theorem RereadAs.mem_keyLayout (h : RereadAs n.toNodeHead head) (hok : NodeOk n) {group : List ℕ}
    (hgroup : (true, group) ∈ keyRuns head (List.range head.keys.length)) :
    (true, group) ∈ keyLayout n.toNodeHead := by
  rw [h.keyRuns_eq, regroup_flagged (separated_keyLayout hok.keys)] at hgroup
  obtain ⟨group', hmem, hsingle⟩ := List.mem_flatMap.mp hgroup
  rwa [← mem_singles hsingle]

theorem listed_of_mem {group : List ℕ} (hgroup : (true, group) ∈ keyLayout n.toNodeHead) {i : ℕ}
    (hi : i ∈ group) : i < n.keys.length ∧ listed n.toNodeHead i = true :=
  mem_flagged_keyLayout (mem_flagged hgroup hi)

theorem RereadAs.omitBrackets_eq (h : RereadAs n.toNodeHead head) (hok : NodeOk n) {group : List ℕ}
    (hgroup : (true, group) ∈ keyLayout n.toNodeHead) :
    omitBrackets head group = omitBrackets n.toNodeHead group := by
  rw [omitBrackets, omitBrackets, h.keys]
  congr 1
  rw [Bool.eq_iff_iff, List.all_eq_true, List.all_eq_true]
  refine forall₂_congr fun i hi => ?_
  obtain ⟨hlt, hlist⟩ := listed_of_mem hgroup (List.mem_of_mem_filter hi)
  rw [h.quoted_listed hok hlt hlist]

/-- Where no brackets are dropped, the lists of the layout are the ones of the node. -/
theorem listed_eq_keyBracketed (hruns : keyLayout n.toNodeHead
    = keyRuns n.toNodeHead (List.range n.keys.length)) {i : ℕ} (hi : i < n.keys.length) :
    listed n.toNodeHead i = n.keyBracketed i := by
  rw [listed, hruns, keyRuns_eq_regroup, flagged_regroup, List.getD_eq_getElem?_getD,
    List.getElem?_map, List.getElem?_range hi]
  rfl

/-- The guard of `formatNodeKeyPath` was met before, but for the list being closed. -/
theorem RereadAs.dropsBrackets_closed (h : RereadAs n.toNodeHead head) (hok : NodeOk n)
    (hdrops : dropsBrackets head = true)
    (hmask : (maskLen n.keysBracketed == n.keys.length) = true)
    (hruns : keyLayout n.toNodeHead = keyRuns n.toNodeHead (List.range n.keys.length)) :
    dropsBrackets { n.toNodeHead with bracketedClosed := true } = true := by
  rw [dropsBrackets] at hdrops ⊢
  simp only [Bool.and_eq_true, List.any_eq_true, h.keys, h.leaf] at hdrops
  obtain ⟨⟨⟨⟨⟨⟨hleaf, -⟩, hlen⟩, hfrom⟩, hlist⟩, -⟩, i, hi, ⟨⟨htwo, hbr⟩, hq⟩, hkw⟩ := hdrops
  have hlt : i < n.keys.length := List.mem_range.mp hi
  rw [h.bracketed i hlt] at hbr
  rw [h.quoted_listed hok hlt hbr] at hq
  rw [listed_eq_keyBracketed hruns hlt] at hbr
  simp only [Bool.and_eq_true, List.any_eq_true]
  exact ⟨⟨⟨⟨⟨⟨hleaf, trivial⟩, hlen⟩, hfrom⟩, hlist⟩, hmask⟩, i, hi, ⟨⟨htwo, hbr⟩, hq⟩, hkw⟩

/-- No list that is read loses its brackets the next time, if none did for being unclosed. -/
theorem RereadAs.keepsBrackets (h : RereadAs n.toNodeHead head) (hok : NodeOk n)
    (hclosed : dropsOnceClosed n.toNodeHead = false) (hdrops : dropsBrackets head = true)
    {group : List ℕ} (hgroup : (true, group) ∈ keyRuns head (List.range head.keys.length)) :
    omitBrackets head group = false := by
  have hmem := h.mem_keyLayout hok hgroup
  rw [h.omitBrackets_eq hok hmem]
  by_cases hn : dropsBrackets n.toNodeHead = true
  · -- the list is one whose brackets stayed
    rw [keyLayout, if_pos hn] at hmem
    obtain ⟨r, -, heq⟩ := List.mem_map.mp hmem
    obtain rfl : r.2 = group := congrArg Prod.snd heq
    have hkept := (Bool.and_eq_true_iff.mp (congrArg Prod.fst heq)).2
    rwa [Bool.not_eq_true'] at hkept
  · by_cases hlists : (n.isLeaf && maskLen n.keysBracketed == n.keys.length
        && (n.keysBracketed.getD []).contains true) = true
    swap
    · rw [keyLayout, if_neg hn, if_neg hlists, List.mem_singleton] at hmem
      cases congrArg Prod.fst hmem
    have hruns : keyLayout n.toNodeHead = keyRuns n.toNodeHead (List.range n.keys.length) := by
      rw [keyLayout, if_neg hn, if_pos hlists]
    have hmask := (Bool.and_eq_true_iff.mp (Bool.and_eq_true_iff.mp hlists).1).2
    have hdrops' := h.dropsBrackets_closed hok hdrops hmask hruns
    have hopen : n.bracketedClosed = false := by
      refine Bool.eq_false_iff.mpr fun hb => hn ?_
      rw [← hdrops', ← hb]
    rw [hruns] at hmem
    rw [dropsOnceClosed, hdrops', hopen, Bool.not_false, Bool.true_and, Bool.true_and,
      List.any_eq_false] at hclosed
    have hkept := hclosed _ hmem
    rwa [Bool.true_and, Bool.not_eq_true] at hkept

/-- **The layout is the same the second time.** -/
theorem RereadAs.flagged_eq (h : RereadAs n.toNodeHead head) (hok : NodeOk n)
    (hclosed : dropsOnceClosed n.toNodeHead = false) :
    flagged (keyLayout head) = flagged (keyLayout n.toNodeHead) := by
  have hruns : flagged (keyRuns head (List.range head.keys.length))
      = flagged (keyLayout n.toNodeHead) := by rw [h.keyRuns_eq, flagged_regroup]
  rw [← hruns, keyLayout]
  split_ifs with hdrops hlists
  · -- no list loses its brackets, so the map changes nothing
    refine congrArg flagged ?_
    refine (List.map_congr_left fun r hr => ?_).trans (List.map_id _)
    obtain ⟨isList, group⟩ := r
    cases isList with
    | false => rfl
    | true =>
      rw [h.keepsBrackets hok hclosed hdrops hr]
      rfl
  · rfl
  · -- nothing was written in a list
    rw [hruns, flagged_keyLayout, h.keys]
    have hplain : ∀ i < n.keys.length, listed n.toNodeHead i = false := by
      intro i hi
      refine Bool.eq_false_iff.mpr fun hlist => hlists ?_
      have hleaf : n.isLeaf = true := by
        refine @keyLayout_leaf n.toNodeHead i ?_
        rw [flagged_keyLayout, ← hlist]
        exact List.mem_map.mpr ⟨i, List.mem_range.mpr hi, rfl⟩
      have hbr : head.keyBracketed i = true := (h.bracketed i hi).trans hlist
      rw [NodeHead.keyBracketed] at hbr
      split_ifs at hbr with hlen
      have hbit : true ∈ head.keysBracketed.getD [] := by
        rw [List.getD_eq_getElem?_getD] at hbr
        cases hget : (head.keysBracketed.getD [])[i]? with
        | none => rw [hget] at hbr; cases hbr
        | some b =>
          rw [hget] at hbr
          obtain rfl : b = true := hbr
          exact List.mem_of_getElem? hget
      rw [h.leaf, hleaf, beq_iff_eq.mpr (not_not.mp hlen), List.contains_iff_mem.mpr hbit]
      rfl
    rw [flagged, List.flatMap_singleton]
    exact List.map_congr_left fun i hi => by rw [hplain i (List.mem_range.mp hi)]

theorem RereadAs.sameText (h : RereadAs n.toNodeHead head) (hok : NodeOk n)
    (hclosed : dropsOnceClosed n.toNodeHead = false) :
    formatNodeKeyPath head = formatNodeKeyPath n.toNodeHead :=
  h.formatNodeKeyPath_eq hok (h.flagged_eq hok hclosed)

end

/-! ## Reading a written statement -/

/-- The token of an `inactive:`. -/
def markerTok : KeyTok := ⟨inactiveMarker, .identifier, false⟩

theorem partToks_statement (n : NodeHead) :
    partToks 0 (statementParts n) = (if n.inactive then [markerTok] else []) ++ pathToks n := by
  rw [statementParts, pathToks, ← partToks_layout]
  split_ifs <;> rfl

theorem noEmptyList_statement {n : NodeHead} (hkeys : n.keys ≠ []) : NoEmptyList (statementParts n) := by
  have hpath := noEmptyList_layout n (separated_keyLayout hkeys).filled
  rw [statementParts]
  split_ifs
  · exact List.isChain_cons.mpr ⟨(by rintro _ _ ⟨⟩), hpath⟩
  · exact hpath

theorem endsKeys_statementTail (indent : ℕ) (n : NodeHead) (body tail : Bytes) :
    EndsKeys (statementTail indent n body ++ tail) := by
  refine ⟨delimited_statementTail indent n body tail, fun g hg => ?_⟩
  rw [statementTail] at hg
  split_ifs at hg
  · rw [scanGap_semicolon (show g.rest = ';'.toUInt8 :: ('\n'.toUInt8 :: tail) from hg)]
    exact ⟨rfl, rfl⟩
  · have hrest : g.rest = ' '.toUInt8 :: '\x7b'.toUInt8 :: ('\n'.toUInt8
        :: (body ++ (indentation indent ++ (bytes "\x7d\n" ++ tail)))) := by
      rw [hg]
      simp only [List.append_assoc]
      rfl
    rw [scanGap_blankBrace hrest]
    exact ⟨rfl, rfl⟩

/-- A node without an inline marker has the keys of its statement. -/
theorem parseTail_head (block : Parser → List Node × Parser) (annotationText : Bytes)
    (inactive closed : Bool) {keys : List KeyTok} (p : Parser)
    (hinline : ∀ b, inlineMarker keys b = ⟨keys, false, none⟩) :
    ∃ base, (parseTail block annotationText inactive closed keys p).1.toNodeHead
      = keysHead keys base := by
  rw [parseTail]
  dsimp only
  split
  · dsimp only
    rw [blockNode, hinline]
    exact ⟨_, rfl⟩
  all_goals
    dsimp only
    rw [leafNode, hinline]
    exact ⟨_, rfl⟩

/-- **A written statement, read again**, has the marks of its layout. -/
theorem parseStatement_reread (block : Parser → List Node × Parser) {n : Node} (hok : NodeOk n)
    (hlists : listsReadBack n.toNodeHead = true) {indent : ℕ} {body tail : Bytes} {p : Parser}
    (hl : Ahead p.lexer (statementText indent n.toNodeHead body ++ tail))
    (hbud : p.nodes + (statementLexemes n.toNodeHead).length ≤ maxParseNodes) {node : Node}
    (hnode : (parseStatement block p).1 = some node) (hleaf : node.isLeaf = n.isLeaf) :
    RereadAs n.toNodeHead node.toNodeHead := by
  have hparts := parts_statement hok hlists
  rw [statementText_eq] at hl
  have htext : ' '.toUInt8 :: (inactivePrefix n.toNodeHead ++ formatNodeKeyPath n.toNodeHead
        ++ (statementTail indent n.toNodeHead body ++ tail))
      = spaced (statementParts n.toNodeHead) ++ (statementTail indent n.toNodeHead body ++ tail) := by
    rw [← statementParts_text hok.keys]
    rfl
  obtain ⟨g, hg, hfresh, hrest, hscan⟩ := scan_statement hok.comment hl htext
  have htoks : (parseKeys p.peek.2).1
      = (if n.inactive then [markerTok] else []) ++ pathToks n.toNodeHead := by
    rw [← partToks_statement]
    exact parseKeys_parts hparts (noEmptyList_statement hok.keys)
      (endsKeys_statementTail indent n.toNodeHead body tail) hg.depth hfresh hrest hscan hbud
  have hlex : lexemes (parseKeys p.peek.2).1 = statementLexemes n.toNodeHead := by
    rw [htoks, ← partToks_statement]
    exact partToks_lexemes hparts
  obtain ⟨hin, -, hinline⟩ := liftMarker_statement hok hlex
  obtain ⟨k, ks, hcons, hlone⟩ := statementLexemes_cons hok
  -- behind its marker the statement has the tokens of its path
  have hlift : (liftMarker (parseKeys p.peek.2).1).2 = pathToks n.toNodeHead := by
    rw [htoks] at hin ⊢
    by_cases hmark : n.inactive = true
    · rw [if_pos hmark]
      rfl
    · rw [if_neg hmark, List.nil_append] at hin ⊢
      rw [Bool.eq_false_iff.mpr hmark] at hin
      cases hpath : pathToks n.toNodeHead with
      | nil => rfl
      | cons tok toks =>
        rw [hpath, liftMarker] at hin
        rw [liftMarker]
        split_ifs at hin ⊢
        rfl
  rw [hlift] at hinline
  cases hkeys : (parseKeys p.peek.2).1 with
  | nil =>
    rw [hkeys, hcons] at hlex
    cases hlex
  | cons tok toks =>
    rw [hkeys, hcons] at hlex
    have hlone' : tok.isMarker = true → toks ≠ [] := by
      rintro hm rfl
      refine hlone ?_ (List.cons.inj hlex).2.symm
      rw [← (List.cons.inj hlex).1]
      exact (isMarker_iff tok).mp hm
    rw [parseStatement_tail block hkeys hlone', ← hkeys, hlift] at hnode
    obtain ⟨base, hbase⟩ := parseTail_head block p.peek.2.lexer.lastGapComment
      (liftMarker (parseKeys p.peek.2).1).1 (parseKeys p.peek.2).2.1 (parseKeys p.peek.2).2.2 hinline
    rw [Option.some.inj hnode] at hbase
    have hleaf' : base.isLeaf = n.isLeaf := by
      rw [← hleaf, hbase]
      rfl
    rw [hbase]
    exact rereadAs_keysHead hleaf'

end Xpf.ConfigReread
