/-
`ConfigAccepted.lean` -- what the nodes of an accepted configuration look like.

Rendering a tree and reading it back is only right for trees the parser can build: a
bare key has the shape of a word, a bare `inactive:` is at most the first key of an
inactive leaf, and an annotation is a normalized comment. `NodeOk` collects these facts
and `forest_nodesOk` reads them off the grammar.
-/
import Xpf.ConfigKeyPath

set_option autoImplicit false

namespace Xpf.ConfigAccepted

open Xpf.GoStrings Xpf.ConfigLexer Xpf.ConfigLexing Xpf.ConfigComment Xpf.ConfigAst
open Xpf.ConfigParser Xpf.ConfigGrammar Xpf.ConfigKeyPath

/-- What the parser guarantees of a node. -/
structure NodeOk (n : Node) : Prop where
  keys : n.keys ≠ []
  words : ∀ i < n.keys.length, n.keyQuoted i = false → WordShape (n.keys.getD i [])
  marker : n.isLeaf = true → ∀ i < n.keys.length, n.keyQuoted i = false →
    n.keys.getD i [] = inactiveMarker → i = 0 ∧ n.inactive = true
  comment : CommentOk n.annotationText
  leaf : n.isLeaf = true → n.children = []

/-! ## Keys -/

/-- A mask that the setters have normalized still says the same of every key. -/
theorem normalizeMask_bit {keys : List Bytes} {mask : List Bool} (hlen : mask.length = keys.length)
    (i : ℕ) :
    (if maskLen (normalizeMask keys (some mask)) ≠ keys.length then false
      else ((normalizeMask keys (some mask)).getD []).getD i false) = mask.getD i false := by
  have hmask : maskLen (some mask) = keys.length := hlen
  rw [normalizeMask]
  by_cases h : true ∈ mask
  · have hmem : maskLen (some mask) = keys.length ∧ true ∈ (some mask).getD [] := ⟨hmask, h⟩
    rw [if_pos hmem, if_neg (fun hne => hne hmask)]
    rfl
  · have hmem : ¬ (maskLen (some mask) = keys.length ∧ true ∈ (some mask).getD []) := fun hc => h hc.2
    rw [if_neg hmem]
    -- no bit is set, so the dropped mask is the mask of all `false`
    have hfalse : mask.getD i false = false := by
      rw [List.getD_eq_getElem?_getD]
      cases hi : mask[i]? with
      | none => rfl
      | some b =>
        cases b with
        | false => rfl
        | true => exact absurd (List.mem_of_getElem? hi) h
    rw [hfalse]
    split_ifs <;> rfl

/-- The quote mask of a parsed node says which of its tokens were strings. -/
theorem keyQuoted_keysHead (keys : List KeyTok) (head : NodeHead) (i : ℕ) :
    (keysHead keys head).keyQuoted i = (keys.map fun k => k.kind == .string).getD i false := by
  have hmask : (keysHead keys head).keysQuoted
      = normalizeMask (keys.map KeyTok.value) (some (keys.map fun k => k.kind == .string)) := rfl
  rw [NodeHead.keyQuoted, hmask, keysHead_keys]
  exact normalizeMask_bit (by simp) i

/-- The bracket mask of a parsed node says which of its tokens stood in a list. -/
theorem keyBracketed_keysHead (keys : List KeyTok) (head : NodeHead) (i : ℕ) :
    (keysHead keys head).keyBracketed i = (keys.map KeyTok.bracketed).getD i false := by
  have hmask : (keysHead keys head).keysBracketed
      = normalizeMask (keys.map KeyTok.value) (some (keys.map KeyTok.bracketed)) := rfl
  rw [NodeHead.keyBracketed, hmask, keysHead_keys]
  exact normalizeMask_bit (by simp) i

/-- A key of a parsed node that is not quoted is one of its identifier tokens. -/
theorem bareKey_keysHead {keys : List KeyTok} {head : NodeHead} (hlexed : ∀ k ∈ keys, Lexed k)
    {i : ℕ} (hi : i < (keysHead keys head).keys.length)
    (hbare : (keysHead keys head).keyQuoted i = false) :
    ∃ k, keys[i]? = some k ∧ k ∈ keys ∧ k.kind = .identifier
      ∧ (keysHead keys head).keys.getD i [] = k.value := by
  rw [keysHead_keys, List.length_map] at hi
  have hget : keys[i]? = some keys[i] := List.getElem?_eq_getElem hi
  refine ⟨keys[i], hget, List.getElem_mem hi, ?_, ?_⟩
  · rw [keyQuoted_keysHead, List.getD_eq_getElem?_getD, List.getElem?_map, hget] at hbare
    have hkey := (hlexed _ (List.getElem_mem hi)).isKey
    rw [isKey, Bool.or_eq_true, beq_iff_eq, beq_iff_eq] at hkey
    refine hkey.resolve_right fun hstring => ?_
    rw [Option.map_some, Option.getD_some, hstring] at hbare
    cases hbare
  · rw [keysHead_keys, List.getD_eq_getElem?_getD, List.getElem?_map, hget]
    rfl

theorem wordShape_lexed {k : KeyTok} (h : Lexed k) (hkind : k.kind = .identifier) :
    WordShape k.value := by
  obtain ⟨d, s, htype, hvalue⟩ := h.scanned
  rw [← hvalue]
  exact scanGap_shape (Gap.start d s) (htype.trans hkind)

theorem splitMarker_mem (ks : List KeyTok) :
    (∀ k ∈ (splitMarker ks).1, k ∈ ks ∧ k.isMarker = false)
      ∧ ∀ behind, (splitMarker ks).2 = some behind → ∀ k ∈ behind, k ∈ ks := by
  induction ks with
  | nil => exact ⟨(by rintro _ ⟨⟩), (by rintro _ ⟨⟩)⟩
  | cons k ks ih =>
    rw [splitMarker]
    split_ifs with hk
    · refine ⟨(by rintro _ ⟨⟩), fun behind hb k' hk' => ?_⟩
      obtain rfl := Option.some.inj hb
      exact List.mem_cons_of_mem _ hk'
    · refine ⟨fun k' hk' => ?_, fun behind hb k' hk' => ?_⟩
      · rcases List.mem_cons.mp hk' with rfl | hk'
        · exact ⟨List.mem_cons_self, Bool.eq_false_iff.mpr hk⟩
        · exact ⟨List.mem_cons_of_mem _ (ih.1 k' hk').1, (ih.1 k' hk').2⟩
      · exact List.mem_cons_of_mem _ (ih.2 behind hb k' hk')

/-- The keys that stay with a statement: its first key, and keys that are no markers.
An inline marker in front of a block hands the keys behind it to the governed one. -/
theorem inlineMarker_spec (k : KeyTok) (ks : List KeyTok) (block : Bool) :
    (∃ front, (inlineMarker (k :: ks) block).keys = k :: front
        ∧ ∀ k' ∈ front, k' ∈ ks ∧ k'.isMarker = false)
      ∧ ∀ sub, (inlineMarker (k :: ks) block).governed = some sub →
          sub ≠ [] ∧ ∀ k' ∈ sub, k' ∈ ks := by
  obtain ⟨hfront, hbehind⟩ := splitMarker_mem ks
  rw [inlineMarker]
  cases hsplit : splitMarker ks with
  | mk front behind =>
    rw [hsplit] at hfront hbehind
    cases behind with
    | none =>
      have hks : front = ks := by
        have hnone : (splitMarker ks).2 = none → (splitMarker ks).1 = ks := splitMarker_none
        rw [hsplit] at hnone
        exact hnone rfl
      exact ⟨⟨front, by rw [hks], hfront⟩, (by rintro _ ⟨⟩)⟩
    | some behind =>
      dsimp only
      split_ifs with hgov
      · refine ⟨⟨front, rfl, hfront⟩, fun sub hsub => ?_⟩
        obtain rfl := Option.some.inj hsub
        refine ⟨fun hnil => ?_, hbehind behind rfl⟩
        rw [hnil] at hgov
        simp at hgov
      · exact ⟨⟨front, rfl, hfront⟩, (by rintro _ ⟨⟩)⟩

theorem liftMarker_mem (ks : List KeyTok) : ∀ k ∈ (liftMarker ks).2, k ∈ ks := by
  cases ks with
  | nil => rintro _ ⟨⟩
  | cons k ks =>
    rw [liftMarker]
    split_ifs
    · exact fun k' hk' => List.mem_cons_of_mem _ hk'
    · exact fun k' hk' => hk'

/-- Only a lifted marker leaves another one in the first place. -/
theorem liftMarker_head {ks rest : List KeyTok} {k : KeyTok} (h : (liftMarker ks).2 = k :: rest)
    (hk : k.isMarker = true) : (liftMarker ks).1 = true := by
  cases ks with
  | nil => cases h
  | cons k' ks =>
    rw [liftMarker] at h ⊢
    split_ifs at h ⊢ with hk'
    · rfl
    · exact absurd ((List.cons.inj h).1 ▸ hk) hk'

/-! ## Nodes -/

theorem leafNode_ok {annotationText : Bytes} {closed : Bool} {tok : Token} {ks : List KeyTok}
    (hlexed : ∀ k ∈ ks, Lexed k) (hkeys : (liftMarker ks).2 ≠ [])
    (hcomment : LexedComment annotationText) :
    NodeOk (leafNode annotationText (liftMarker ks).1 closed (liftMarker ks).2 tok) := by
  obtain ⟨k, rest, hlift⟩ := List.exists_cons_of_ne_nil hkeys
  obtain ⟨⟨front, hfront, hplain⟩, -⟩ := inlineMarker_spec k rest false
  have hlexed' : ∀ k' ∈ k :: rest, Lexed k' := fun k' hk' =>
    hlexed k' (liftMarker_mem ks k' (hlift ▸ hk'))
  have hlexed'' : ∀ k' ∈ k :: front, Lexed k' := by
    intro k' hk'
    rcases List.mem_cons.mp hk' with rfl | hk'
    · exact hlexed' _ List.mem_cons_self
    · exact hlexed' k' (List.mem_cons_of_mem _ (hplain k' hk').1)
  rw [hlift, leafNode, hfront]
  obtain ⟨d, s, rfl⟩ := hcomment
  refine ⟨by simp, ?_, ?_, scan_commentOk d s, fun _ => rfl⟩
  · intro i hi hbare
    obtain ⟨k', -, hmem, hkind, hvalue⟩ := bareKey_keysHead hlexed'' hi hbare
    rw [hvalue]
    exact wordShape_lexed (hlexed'' k' hmem) hkind
  · intro _ i hi hbare hmarker
    obtain ⟨k', hget, hmem, hkind, hvalue⟩ := bareKey_keysHead hlexed'' hi hbare
    have hk' : k'.isMarker = true := by
      rw [isMarker_iff, hkind, ← hvalue, hmarker]
      rfl
    -- the keys behind the first are no markers
    cases i with
    | zero =>
      obtain rfl := Option.some.inj hget
      exact ⟨rfl, liftMarker_head hlift hk'⟩
    | succ i =>
      have hfront' : k' ∈ front := List.mem_of_getElem? hget
      rw [(hplain k' hfront').2] at hk'
      cases hk'

theorem keysHead_block_ok {keys : List KeyTok} {head : NodeHead} (hlexed : ∀ k ∈ keys, Lexed k)
    (hne : keys ≠ []) (hleaf : head.isLeaf = false) (hcomment : CommentOk head.annotationText)
    (children : List Node) : NodeOk { keysHead keys head with children } := by
  refine ⟨by simpa using hne, ?_, ?_, hcomment, ?_⟩
  · intro i hi hbare
    obtain ⟨k, -, hmem, hkind, hvalue⟩ := bareKey_keysHead hlexed hi hbare
    rw [hvalue]
    exact wordShape_lexed (hlexed k hmem) hkind
  · intro hl
    exact absurd hl (Bool.eq_false_iff.mp hleaf)
  · intro hl
    exact absurd hl (Bool.eq_false_iff.mp hleaf)

theorem blockNode_ok {annotationText : Bytes} {closed : Bool} {tok : Token} {ks : List KeyTok}
    {children : List Node} (hlexed : ∀ k ∈ ks, Lexed k) (hkeys : (liftMarker ks).2 ≠ [])
    (hcomment : LexedComment annotationText) (hchildren : NodesForall NodeOk children) :
    NodesForall NodeOk
      [blockNode annotationText (liftMarker ks).1 closed (liftMarker ks).2 tok children] := by
  obtain ⟨k, rest, hlift⟩ := List.exists_cons_of_ne_nil hkeys
  obtain ⟨⟨front, hfront, hplain⟩, hgov⟩ := inlineMarker_spec k rest true
  have hlexed' : ∀ k' ∈ k :: rest, Lexed k' := fun k' hk' =>
    hlexed k' (liftMarker_mem ks k' (hlift ▸ hk'))
  have hlexed'' : ∀ k' ∈ k :: front, Lexed k' := by
    intro k' hk'
    rcases List.mem_cons.mp hk' with rfl | hk'
    · exact hlexed' _ List.mem_cons_self
    · exact hlexed' k' (List.mem_cons_of_mem _ (hplain k' hk').1)
  obtain ⟨d, s, rfl⟩ := hcomment
  rw [hlift, blockNode, hfront]
  dsimp only
  split
  · rename_i sub hsub
    obtain ⟨hne, hmem⟩ := hgov sub hsub
    have hsublexed : ∀ k' ∈ sub, Lexed k' := fun k' hk' =>
      hlexed' k' (List.mem_cons_of_mem _ (hmem k' hk'))
    rw [nodesForall_cons, nodesForall_cons]
    refine ⟨⟨?_, ⟨?_, hchildren⟩, trivial⟩, trivial⟩
    · exact keysHead_block_ok hlexed'' (List.cons_ne_nil _ _) rfl commentOk_nil _
    · exact keysHead_block_ok hsublexed hne rfl commentOk_nil children
  · rw [nodesForall_cons]
    refine ⟨⟨?_, hchildren⟩, trivial⟩
    exact keysHead_block_ok hlexed'' (List.cons_ne_nil _ _) rfl (scan_commentOk d s) children

/-- **Every node of a sentence** is one the parser can build. -/
theorem forest_nodesOk {openEnd : Bool} {ts : List Lexeme} {nodes : List Node}
    (h : Forest openEnd ts nodes) : NodesForall NodeOk nodes := by
  induction h with
  | nil => trivial
  | leaf front lexed keys comment ih =>
    rw [nodesForall_append, nodesForall_cons]
    exact ⟨ih, ⟨leafNode_ok lexed keys comment, trivial⟩, trivial⟩
  | block front lexed keys comment inner ih ih' =>
    rw [nodesForall_append]
    exact ⟨ih, blockNode_ok lexed keys comment ih'⟩

end Xpf.ConfigAccepted
