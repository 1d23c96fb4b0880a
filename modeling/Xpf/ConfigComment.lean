/-
`ConfigComment.lean` -- block comments as annotations.

A block comment in front of a statement becomes its annotation, with white space
normalized: `strings.Join(strings.Fields(text), " ")`. Such a text is a list of words
without white space and without a `*/` (`CommentOk`), and written back as `/* ... */` it
is read as itself, which is `comment_reads_back`.
-/
import Xpf.ConfigLexing

set_option autoImplicit false

namespace Xpf.ConfigComment

open Xpf.Loop Xpf.GoStrings Xpf.ConfigLexer Xpf.ConfigLexing

/-! ## White space -/

/-- A white-space rune is found whatever follows it. -/
theorem spaceLen_append {t : Bytes} (s : Bytes) (h : spaceLen t ≠ 0) :
    spaceLen (t ++ s) = spaceLen t := by
  match t, h with
  | [], h => exact absurd rfl h
  | [c], h =>
    simp only [spaceLen, List.cons_append, List.nil_append] at h ⊢
    split_ifs at h ⊢ with h1
    · rfl
    · exact absurd rfl h
  | [c, c'], h =>
    simp only [spaceLen, List.cons_append, List.nil_append] at h ⊢
    split_ifs at h ⊢ with h1 h2
    · rfl
    · rfl
    · exact absurd rfl h
  | c :: c' :: c'' :: t, _ => rfl

/-- A blank does not complete the encoding of a white-space rune. -/
theorem spaceLen_blank {t : Bytes} (s : Bytes) (hne : t ≠ []) (h : spaceLen t = 0) :
    spaceLen (t ++ 32 :: s) = 0 := by
  match t, hne with
  | [c], _ =>
    simp only [spaceLen, List.cons_append, List.nil_append] at h ⊢
    split_ifs at h ⊢ with h1 h2
    · exact absurd h2.2 (by decide)
    · cases s with
      | nil => rfl
      | cons c'' s =>
        simp only
        split_ifs with h3 h4 h5 h6
        · exact absurd h3.2.1 (by decide)
        · exact absurd h4.2.1 (by decide)
        · exact absurd h5.2.1 (by decide)
        · exact absurd h6.2.1 (by decide)
        · rfl
  | [c, c'], _ =>
    simp only [spaceLen, List.cons_append, List.nil_append] at h ⊢
    split_ifs at h ⊢ with h1 h2 h3 h4 h5 h6
    · exact absurd h3.2.2 (by decide)
    · exact absurd h4.2.2 (by decide)
    · exact absurd h5.2.2 (by decide)
    · exact absurd h6.2.2 (by decide)
    · rfl
  | c :: c' :: c'' :: t, _ => exact h

/-- A text with no white space in it. -/
def NoSpace (w : Bytes) : Prop := ∀ t, t ≠ [] → t <:+ w → spaceLen t = 0

theorem noSpace_tail {c : UInt8} {w : Bytes} (h : NoSpace (c :: w)) : NoSpace w :=
  fun t hne ht => h t hne (ht.trans (List.suffix_cons c w))

/-- A word in front of a blank is one field. -/
theorem fieldsFrom_word {w : Bytes} (hw : NoSpace w) (word s : Bytes) :
    fieldsFrom 0 word (w ++ 32 :: s) = flush (word ++ w) ++ fieldsFrom 0 [] s := by
  induction w generalizing word with
  | nil => rw [List.append_nil]; rfl
  | cons c w ih =>
    have hlen : spaceLen (c :: (w ++ 32 :: s)) = 0 :=
      spaceLen_blank s (List.cons_ne_nil c w) (hw _ (List.cons_ne_nil c w) List.suffix_rfl)
    rw [List.cons_append, fieldsFrom, hlen]
    dsimp only
    rw [ih (noSpace_tail hw), List.append_assoc]
    rfl

/-- The fields of words joined by blanks are the words. -/
theorem fieldsFrom_join {ws : List Bytes} (hws : ∀ w ∈ ws, w ≠ [] ∧ NoSpace w) :
    fieldsFrom 0 [] (join (bytes " ") ws ++ [32]) = ws := by
  induction ws with
  | nil => rfl
  | cons w ws ih =>
    obtain ⟨hne, hspace⟩ := hws w List.mem_cons_self
    have hflush : flush ([] ++ w) = [w] := by rw [List.nil_append, flush, if_neg hne]
    cases ws with
    | nil =>
      rw [join, fieldsFrom_word hspace, hflush]
      rfl
    | cons v ws =>
      have ih' := ih fun w hw => hws w (List.mem_cons_of_mem _ hw)
      have hjoin : join (bytes " ") (w :: v :: ws) ++ [32]
          = w ++ 32 :: (join (bytes " ") (v :: ws) ++ [32]) := by
        rw [join, List.append_assoc, List.append_assoc]
        rfl
      rw [hjoin, fieldsFrom_word hspace, hflush, ih']
      rfl

/-! ## The end of a comment -/

/-- A `*/` in a text. -/
def hasClose : Bytes → Bool
  | [] => false
  | c :: s => (c == '*'.toUInt8 && s.head? == some '/'.toUInt8) || hasClose s

theorem hasClose_append_right {s : Bytes} (t : Bytes) (h : hasClose (t ++ s) = false) :
    hasClose s = false := by
  induction t with
  | nil => exact h
  | cons c t ih =>
    rw [List.cons_append, hasClose, Bool.or_eq_false_iff] at h
    exact ih h.2

theorem hasClose_append_left {s : Bytes} (t : Bytes) (h : hasClose (s ++ t) = false) :
    hasClose s = false := by
  induction s with
  | nil => rfl
  | cons c s ih =>
    rw [List.cons_append, hasClose, Bool.or_eq_false_iff] at h
    rw [hasClose, Bool.or_eq_false_iff]
    refine ⟨?_, ih h.2⟩
    cases s with
    | nil => rw [List.head?_nil, Bool.and_eq_false_iff]; exact .inr rfl
    | cons c' s => exact h.1

/-- A `*/` does not reach over a blank. -/
theorem hasClose_blank {s t : Bytes} (hs : hasClose s = false) (ht : hasClose t = false) :
    hasClose (s ++ 32 :: t) = false := by
  induction s with
  | nil => exact ht
  | cons c s ih =>
    rw [hasClose, Bool.or_eq_false_iff] at hs
    rw [List.cons_append, hasClose, Bool.or_eq_false_iff]
    refine ⟨?_, ih hs.2⟩
    cases s with
    | nil => rw [Bool.and_eq_false_iff]; exact .inr rfl
    | cons c' s => exact hs.1

/-- The body of a block comment has no `*/`. -/
theorem splitClose_hasClose {s content after : Bytes}
    (h : splitClose s = some (content, after)) : hasClose content = false := by
  induction s generalizing content with
  | nil => cases h
  | cons c s ih =>
    rw [splitClose] at h
    split_ifs at h with hc
    · obtain ⟨rfl, -⟩ := Prod.mk.inj (Option.some.inj h)
      rfl
    · obtain ⟨r, hr, he⟩ := Option.map_eq_some_iff.mp h
      obtain ⟨rfl, rfl⟩ := Prod.mk.inj he
      rw [hasClose, Bool.or_eq_false_iff]
      refine ⟨?_, ih hr⟩
      rw [← Bool.not_eq_true, Bool.and_eq_true, beq_iff_eq, beq_iff_eq]
      rintro ⟨hstar, hslash⟩
      refine hc ⟨hstar, ?_⟩
      -- the first byte of the body is the first byte of the text
      cases s with
      | nil => cases hr
      | cons c' s =>
        rw [splitClose] at hr
        split_ifs at hr with hc'
        · obtain rfl := Option.some.inj hr
          cases hslash
        · obtain ⟨r', -, rfl⟩ := Option.map_eq_some_iff.mp hr
          exact hslash

/-- A body without a `*/`, and a blank behind it, is read up to the `*/` that follows. -/
theorem splitClose_blank {s : Bytes} (after : Bytes) (h : hasClose s = false) :
    splitClose (s ++ 32 :: '*'.toUInt8 :: '/'.toUInt8 :: after) = some (s ++ [32], after) := by
  induction s with
  | nil => rfl
  | cons c s ih =>
    rw [hasClose, Bool.or_eq_false_iff] at h
    rw [List.cons_append, splitClose, if_neg, ih h.2]
    · rfl
    · rintro ⟨hstar, hslash⟩
      cases s with
      | nil =>
        have hblank : (32 : UInt8) = '/'.toUInt8 := Option.some.inj hslash
        exact absurd hblank (by decide)
      | cons c' s =>
        have hhead : (c' :: s).head? = some '/'.toUInt8 := hslash
        rw [hstar, hhead] at h
        exact absurd h.1 (by decide)

/-! ## Normalized comments -/

/-- The text of an annotation: words without white space and without a `*/`. -/
def CommentOk (a : Bytes) : Prop :=
  ∃ ws : List Bytes, a = join (bytes " ") ws
    ∧ ∀ w ∈ ws, (w ≠ [] ∧ NoSpace w) ∧ hasClose w = false

theorem commentOk_nil : CommentOk [] := ⟨[], rfl, by rintro _ ⟨⟩⟩

/-- The fields of a text without a `*/` are such words. The accumulated word has no
white space even with what follows it. -/
theorem fieldsFrom_ok : ∀ (s : Bytes) (skip : ℕ) (word : Bytes),
    (∀ t, t ≠ [] → t <:+ word → spaceLen (t ++ s) = 0) → hasClose (word ++ s) = false →
    (0 < skip → word = []) →
    ∀ w ∈ fieldsFrom skip word s, (w ≠ [] ∧ NoSpace w) ∧ hasClose w = false := by
  intro s
  induction s with
  | nil =>
    intro skip word hword hclose _ w hw
    have hmem : w ∈ flush word := by
      cases skip <;> exact hw
    rw [flush] at hmem
    split_ifs at hmem with hnil
    · cases hmem
    · obtain rfl := List.mem_singleton.mp hmem
      refine ⟨⟨hnil, fun t hne ht => ?_⟩, ?_⟩
      · have h := hword t hne ht
        rwa [List.append_nil] at h
      · rwa [List.append_nil] at hclose
  | cons c s ih =>
    intro skip word hword hclose hskip w hw
    cases skip with
    | succ skip =>
      obtain rfl := hskip (Nat.succ_pos skip)
      rw [fieldsFrom] at hw
      refine ih skip [] ?_ ?_ (fun _ => rfl) w hw
      · intro t hne ht
        exact absurd (List.suffix_nil.mp ht) hne
      · exact hasClose_append_right [c] hclose
    | zero =>
      rw [fieldsFrom] at hw
      split at hw
      · rename_i hlen
        refine ih 0 (word ++ [c]) ?_ ?_ (fun h => absurd h (Nat.lt_irrefl 0)) w hw
        · intro t hne ht
          rcases List.suffix_concat_iff.mp ht with rfl | ⟨t', rfl, ht'⟩
          · exact absurd rfl hne
          · rw [List.append_assoc, List.singleton_append]
            by_cases ht0 : t' = []
            · rw [ht0]; exact hlen
            · exact hword t' ht0 ht'
        · rwa [List.append_assoc, List.singleton_append]
      · rename_i n hlen
        rcases List.mem_append.mp hw with hw | hw
        · rw [flush] at hw
          split_ifs at hw with hnil
          · cases hw
          · obtain rfl := List.mem_singleton.mp hw
            refine ⟨⟨hnil, fun t hne ht => ?_⟩, hasClose_append_left _ hclose⟩
            by_contra hpos
            have h := hword t hne ht
            rw [spaceLen_append _ hpos] at h
            exact hpos h
        · refine ih n [] ?_ ?_ (fun _ => rfl) w hw
          · intro t hne ht
            exact absurd (List.suffix_nil.mp ht) hne
          · exact hasClose_append_right (word ++ [c]) (by rwa [List.append_assoc])

/-- The comment of a gap. -/
def gapComment (g : Gap) : Bytes := if g.hasComment then g.pendingComment else []

theorem join_append_word {ws : List Bytes} (hne : ws ≠ []) (vs : List Bytes) (hvs : vs ≠ []) :
    join (bytes " ") ws ++ bytes " " ++ join (bytes " ") vs = join (bytes " ") (ws ++ vs) := by
  induction ws with
  | nil => exact absurd rfl hne
  | cons w ws ih =>
    cases ws with
    | nil =>
      obtain ⟨v, vs, rfl⟩ := List.exists_cons_of_ne_nil hvs
      rw [List.singleton_append, join, join]
    | cons w' ws =>
      have ih' := ih (List.cons_ne_nil w' ws)
      rw [join, List.cons_append, List.cons_append, join, ← List.cons_append, ← ih']
      simp only [List.append_assoc]

theorem join_ne_nil {ws : List Bytes} (h : join (bytes " ") ws ≠ []) : ws ≠ [] := by
  rintro rfl
  exact h rfl

/-- The text of a comment is normalized. -/
theorem commentOk_fields {content : Bytes} (h : hasClose content = false) :
    ∀ w ∈ fields content, (w ≠ [] ∧ NoSpace w) ∧ hasClose w = false :=
  fieldsFrom_ok content 0 [] (fun _ hne ht => absurd (List.suffix_nil.mp ht) hne) h
    (fun h => absurd h (Nat.lt_irrefl 0))

/-- Adding a comment keeps the comment of a gap normalized. -/
theorem addComment_ok {g : Gap} {content : Bytes} (hg : g.hasComment = true → g.pendingComment ≠ [])
    (hok : CommentOk (gapComment g)) (h : hasClose content = false) :
    ((g.addComment content).hasComment = true → (g.addComment content).pendingComment ≠ [])
      ∧ CommentOk (gapComment (g.addComment content)) := by
  have hwords := commentOk_fields h
  rw [Gap.addComment]
  split_ifs with hnil hhas
  · exact ⟨hg, hok⟩
  · refine ⟨fun _ => ?_, ?_⟩
    · simp only [ne_eq, List.append_eq_nil_iff, not_and]
      exact fun _ => hnil
    · rw [gapComment, if_pos hhas] at hok
      obtain ⟨ws, heq, hws⟩ := hok
      refine ⟨ws ++ fields content, ?_, ?_⟩
      · have hne := hg hhas
        rw [heq] at hne
        rw [gapComment, if_pos hhas]
        dsimp only
        rw [heq, join_append_word (join_ne_nil hne) _ (join_ne_nil hnil)]
      · intro w hw
        rcases List.mem_append.mp hw with hw | hw
        · exact hws w hw
        · exact hwords w hw
  · exact ⟨fun _ => hnil, fields content, rfl, hwords⟩

/-- What every gap state of a run of `Next` satisfies. -/
def GapCommentOk (g : Gap) : Prop :=
  (g.hasComment = true → g.pendingComment ≠ []) ∧ CommentOk (gapComment g)

theorem skip_commentOk (g : Gap) (h : GapCommentOk g) :
    GapCommentOk (skipWhitespaceAndComments g).1 := by
  refine run_induct skipStep_dec (motive := fun g r => GapCommentOk g → GapCommentOk r.1)
    ?_ ?_ g h
  · intro g r hstep hg
    rw [skipStep] at hstep
    split at hstep
    · obtain rfl := Sum.inr.inj hstep; exact hg
    · split_ifs at hstep with h1 h2 h3 h4
      · split at hstep
        · obtain rfl := Sum.inr.inj hstep; exact hg
        · cases hstep
      · obtain rfl := Sum.inr.inj hstep; exact hg
  · intro g g' r hstep hr hg
    refine hr ?_
    rw [skipStep] at hstep
    split at hstep
    · cases hstep
    · split_ifs at hstep with h1 h2 h3 h4
      · obtain rfl := Sum.inl.inj hstep; exact hg
      · obtain rfl := Sum.inl.inj hstep; exact hg
      · split at hstep
        · cases hstep
        · rename_i content after hclose
          obtain rfl := Sum.inl.inj hstep
          exact addComment_ok hg.1 hg.2 (splitClose_hasClose hclose)
      · obtain rfl := Sum.inl.inj hstep; exact hg

theorem skipGap_commentOk (g : Gap) (h : GapCommentOk g) : GapCommentOk (skipGap g).1 := by
  refine run_induct gapStep_dec (motive := fun g r => GapCommentOk g → GapCommentOk r.1) ?_ ?_ g h
  · intro g r hstep hg
    have hskip := skip_commentOk g hg
    rw [gapStep] at hstep
    split at hstep
    · rename_i heq
      obtain rfl := Sum.inr.inj hstep
      rw [heq] at hskip; exact hskip
    · rename_i heq
      rw [heq] at hskip
      split at hstep
      · obtain rfl := Sum.inr.inj hstep; exact hskip
      · split_ifs at hstep with h1 h2 h3
        · split at hstep
          · obtain rfl := Sum.inr.inj hstep; exact hskip
          · cases hstep
        · obtain rfl := Sum.inr.inj hstep; exact hskip
  · intro g g' r hstep hr hg
    refine hr ?_
    have hskip := skip_commentOk g hg
    rw [gapStep] at hstep
    split at hstep
    · cases hstep
    · rename_i heq
      rw [heq] at hskip
      split at hstep
      · cases hstep
      · split_ifs at hstep with h1 h2 h3
        · split at hstep
          · cases hstep
          · obtain rfl := Sum.inl.inj hstep; exact hskip
        · obtain rfl := Sum.inl.inj hstep; exact hskip
        · obtain rfl := Sum.inl.inj hstep; exact hskip

/-- **The comment in front of a token is normalized.** -/
theorem scan_commentOk (d : ℕ) (s : Bytes) : CommentOk (gapComment (scan d s).gap) := by
  have hgap := skipGap_commentOk (Gap.start d s) ⟨(by rintro ⟨⟩), commentOk_nil⟩
  rw [scan]
  generalize skipGap (Gap.start d s) = r at hgap
  obtain ⟨g, e⟩ := r
  cases e with
  | token =>
    rw [finish]
    split
    · exact hgap.2
    · exact hgap.2
  | unterminated start => exact hgap.2
  | eof => exact hgap.2
  | literal start value => exact hgap.2

/-- The body of a rendered comment. -/
theorem hasClose_join {ws : List Bytes} (h : ∀ w ∈ ws, hasClose w = false) :
    hasClose (join (bytes " ") ws) = false := by
  induction ws with
  | nil => rfl
  | cons w ws ih =>
    cases ws with
    | nil => exact h w List.mem_cons_self
    | cons v ws =>
      rw [join, List.append_assoc]
      exact hasClose_blank (h w List.mem_cons_self) (ih fun w hw => h w (List.mem_cons_of_mem _ hw))

/-- **A rendered annotation reads back as itself**: the comment line in front of a
statement puts the annotation into the gap state, and nothing else. -/
theorem comment_reads_back {a : Bytes} (hne : a ≠ []) (hok : CommentOk a) {g : Gap} {after : Bytes}
    (hhas : g.hasComment = false) (hrest : g.rest = bytes "/* " ++ (a ++ (bytes " */" ++ after))) :
    scanGap g = scanGap { g with rest := after, pendingComment := a, hasComment := true } := by
  obtain ⟨ws, rfl, hws⟩ := hok
  have hclose : hasClose (32 :: join (bytes " ") ws) = false := by
    have h := hasClose_join fun w hw => (hws w hw).2
    exact hasClose_blank (s := []) rfl h
  have hbody : splitClose (32 :: (join (bytes " ") ws ++ (bytes " */" ++ after)))
      = some (32 :: join (bytes " ") ws ++ [32], after) :=
    splitClose_blank (s := 32 :: join (bytes " ") ws) after hclose
  have hfields : fields (32 :: join (bytes " ") ws ++ [32]) = ws :=
    fieldsFrom_join fun w hw => (hws w hw).1
  rw [scanGap, skipGap_congr (skip_blockComment hrest hbody), Gap.addComment, hfields, if_neg hne,
    if_neg (by dsimp only; rw [hhas]; rintro ⟨⟩), scanGap]

end Xpf.ConfigComment
