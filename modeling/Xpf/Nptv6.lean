/-
NPTv6 (RFC 6296) stateless prefix translation: `userspace-dp/src/nptv6.rs`.

A rule maps an internal /48 or /64 prefix to an external one and repairs the
ones'-complement sum of the address in a single word behind the prefix. The file
has the translation as the helper computes it (`tryFromSnapshots`, the two
`translate*Result` lookups), and what makes it a translation: per zone the two
directions undo each other on every address they accept.

The argument has three parts, one section each.

| | what carries it |
|---|---|
| the adjusted word | `adjustWord` adds modulo `0xFFFF`, and neither side ever holds `0xFFFF` |
| the selected word | the words in front of it are `0xFFFF` before and after |
| the selected rule | `findOverlap` leaves one rule that can match an address in a zone |

An address is its eight 16-bit words in network order, a `[u16; 8]` as a function
on `Fin 8`. The 32-bit accumulators of the source never exceed `2^18`, so they are
natural numbers here.
-/
import Mathlib
import Xpf.OnesComplement
import Xpf.Ipv6Text

set_option autoImplicit false

namespace Xpf.Nptv6

open Xpf.OnesComplement Xpf.Ipv6Text

/-! ## Addresses and words -/

/-- The octets of an `Ipv6Addr`, in network order. -/
abbrev Ipv6Addr := Fin 16 → UInt8

/-- `[u16; 8]`. -/
abbrev Words := Fin 8 → UInt16

/-- `[u16; 4]`, the words a prefix can have. -/
abbrev PrefixWords := Fin 4 → UInt16

/-- `ipv6_to_words`: `u16::from_be_bytes` on each pair of octets. -/
def ipv6ToWords (addr : Ipv6Addr) : Words := fun i =>
  UInt16.ofNat ((addr ⟨i * 2, by omega⟩).toNat * 256 + (addr ⟨i * 2 + 1, by omega⟩).toNat)

/-- `words_to_ipv6`: `u16::to_be_bytes` on each word. -/
def wordsToIpv6 (words : Words) : Ipv6Addr := fun j =>
  let w := (words ⟨j / 2, by omega⟩).toNat
  if j.val % 2 = 0 then UInt8.ofNat (w / 256) else UInt8.ofNat (w % 256)

theorem ipv6ToWords_wordsToIpv6 (words : Words) : ipv6ToWords (wordsToIpv6 words) = words := by
  funext i
  apply UInt16.toNat_inj.mp
  have hlt := UInt16.toNat_lt (words i)
  have h1 : (i.val * 2) / 2 = i.val := by omega
  have h2 : (i.val * 2 + 1) / 2 = i.val := by omega
  have h3 : (i.val * 2) % 2 = 0 := by omega
  have h4 : ¬ (i.val * 2 + 1) % 2 = 0 := by omega
  simp only [ipv6ToWords, wordsToIpv6, h1, h2, if_pos h3, if_neg h4, UInt8.toNat_ofNat',
    UInt16.toNat_ofNat', Fin.eta]
  omega

theorem wordsToIpv6_ipv6ToWords (addr : Ipv6Addr) : wordsToIpv6 (ipv6ToWords addr) = addr := by
  funext j
  apply UInt8.toNat_inj.mp
  have hj := UInt8.toNat_lt (addr j)
  simp only [ipv6ToWords, wordsToIpv6]
  split_ifs with h
  · have hj2 : (⟨j.val / 2 * 2, by omega⟩ : Fin 16) = j := Fin.ext (by dsimp only; omega)
    have hlo := UInt8.toNat_lt (addr ⟨j.val / 2 * 2 + 1, by omega⟩)
    simp only [hj2, UInt16.toNat_ofNat', UInt8.toNat_ofNat']
    omega
  · have hj2 : (⟨j.val / 2 * 2 + 1, by omega⟩ : Fin 16) = j := Fin.ext (by dsimp only; omega)
    have hhi := UInt8.toNat_lt (addr ⟨j.val / 2 * 2, by omega⟩)
    simp only [hj2, UInt16.toNat_ofNat', UInt8.toNat_ofNat']
    omega

/-! ## The adjustment -/

/-- The sum of the first `n` words of a prefix. -/
def sumWords (p : PrefixWords) (n : ℕ) : ℕ :=
  ((List.finRange 4).filter (fun i => i.val < n)).foldl (fun s i => s + (p i).toNat) 0

/-- `compute_adjustment`: internal sum minus external sum, as ones' complement. -/
def computeAdjustment (internal external : PrefixWords) (words : ℕ) : UInt16 :=
  let isum := foldAll (sumWords internal words)
  let esum := foldAll (sumWords external words)
  -- `!esum & 0xFFFF` of a folded sum
  let adj := foldAll (isum + (0xFFFF - esum))
  UInt16.ofNat adj

/-- `adjust_word`: add with end-around carry, and never answer `0xFFFF`. -/
def adjustWord (word adj : UInt16) : UInt16 :=
  let sum := fold (fold (word.toNat + adj.toNat))
  let result := UInt16.ofNat sum
  if result = 0xFFFF then 0 else result

/-- `is_zero_adjustment`: both representations of ones'-complement zero. -/
def isZeroAdjustment (adj : UInt16) : Bool := adj == 0 || adj == 0xFFFF

/-- **What `adjust_word` computes**: the sum modulo `0xFFFF`. -/
theorem adjustWord_toNat (word adj : UInt16) :
    (adjustWord word adj).toNat = (word.toNat + adj.toNat) % 65535 := by
  have hw := UInt16.toNat_lt word
  have ha := UInt16.toNat_lt adj
  have hmod := fold_mod (fold (word.toNat + adj.toNat))
  rw [fold_mod (word.toNat + adj.toNat)] at hmod
  have hle : fold (fold (word.toNat + adj.toNat)) ≤ 65535 := by
    simp only [fold_eq]; omega
  rw [adjustWord]
  split_ifs with h
  · have h' := congrArg UInt16.toNat h
    rw [UInt16.toNat_ofNat', Nat.mod_eq_of_lt (by omega)] at h'
    have h1 : fold (fold (word.toNat + adj.toNat)) = 65535 := h'
    rw [h1] at hmod
    rw [← hmod]; rfl
  · have hne : fold (fold (word.toNat + adj.toNat)) ≠ 65535 := by
      intro heq
      exact h (by rw [heq]; rfl)
    rw [UInt16.toNat_ofNat', Nat.mod_eq_of_lt (by omega), ← hmod, residue_of_ne hle hne]

theorem adjustWord_ne (word adj : UInt16) : adjustWord word adj ≠ 0xFFFF := by
  intro h
  have h' := congrArg UInt16.toNat h
  rw [adjustWord_toNat] at h'
  have h2 : (0xFFFF : UInt16).toNat = 65535 := rfl
  omega

/-- Adjusting by a word and then by its complement gives back every word but
`0xFFFF`. -/
theorem adjustWord_compl (word adj : UInt16) (hne : word ≠ 0xFFFF) :
    adjustWord (adjustWord word adj) (~~~adj) = word := by
  apply UInt16.toNat_inj.mp
  have hw := UInt16.toNat_lt word
  have ha := UInt16.toNat_lt adj
  have hnot : (~~~adj).toNat = 0xFFFF - adj.toNat := UInt16.toNat_not adj
  have hne' : word.toNat ≠ 0xFFFF := fun h => hne (UInt16.toNat_inj.mp h)
  rw [adjustWord_toNat, adjustWord_toNat, hnot, add_compl_mod _ _ (by omega)]
  exact residue_of_ne (by omega) hne'

theorem compl_compl (adj : UInt16) : ~~~(~~~adj) = adj := by
  apply UInt16.toNat_inj.mp
  have ha := UInt16.toNat_lt adj
  rw [UInt16.toNat_not, UInt16.toNat_not]
  have hs : UInt16.size = 65536 := rfl
  omega

/-! ## Rules, snapshots and the two lookups -/

/-- `Nptv6RuleSnapshot`. -/
structure Nptv6RuleSnapshot where
  name : String
  fromZone : String
  internalPrefix : String
  externalPrefix : String

/-- `Nptv6Rule`: the parsed prefixes with the precomputed adjustment. -/
structure Nptv6Rule where
  fromZone : String
  internalPrefix : PrefixWords
  externalPrefix : PrefixWords
  adjustment : UInt16
  /-- 3 for /48, 4 for /64. -/
  prefixWords : ℕ

/-- `zone_matches`: the empty scope is a wildcard. -/
def Nptv6Rule.zoneMatches (rule : Nptv6Rule) (zone : String) : Bool :=
  rule.fromZone.isEmpty || rule.fromZone == zone

/-- The three outcomes of a lookup. -/
inductive Nptv6Translation where
  | noMatch
  | translated
  | untranslatable
deriving DecidableEq, Repr

/-- `Nptv6State`, the rules of both directions (the counters are left out). -/
structure Nptv6State where
  inbound : List Nptv6Rule
  outbound : List Nptv6Rule

/-- What is wrong with a rule: the `field` text of `Nptv6UnparseableRule` names the
prefix (`internal/nptv6 prefix …`, `external/match prefix …`) or the pair
(`prefix lengths must match (internal … vs external …)`). -/
inductive RuleField where
  | internalPrefix (text : String)
  | externalPrefix (text : String)
  | prefixLengths (internal external : String)
deriving DecidableEq

/-- The direction an overlap is reported for. -/
inductive Direction where
  /-- `"outbound (internal)"` -/
  | outbound
  /-- `"inbound (external)"` -/
  | inbound
deriving DecidableEq

/-- The two `SnapshotIntegrityError`s of this file. -/
inductive SnapshotIntegrityError where
  | nptv6UnparseableRule (ruleName : String) (field : RuleField)
  | nptv6OverlappingPrefix (firstRule secondRule : String) (direction : Direction)
deriving DecidableEq

/-- `parts[1].parse::<u8>()` on a text of digits. -/
def parseU8 (cs : List Char) : Option ℕ :=
  if cs.isEmpty || !cs.all Char.isDigit then none
  else
    let n := cs.foldl (fun n c => n * 10 + (c.toNat - '0'.toNat)) 0
    if n < 256 then some n else none

/-- The prefix lengths the translation supports. -/
def wordsOfLen : ℕ → Option ℕ
  | 48 => some 3
  | 64 => some 4
  | _ => none

/-- `parse_prefix`: the words of a /48 or /64 with no bit behind it, else `none`. -/
def parsePrefix (s : String) : Option (PrefixWords × ℕ) := do
  match s.toList.splitOn '/' with
  | [addrText, lenText] =>
    let prefixLen ← parseU8 lenText
    let words ← wordsOfLen prefixLen
    let groups ← parseIpv6Addr addrText
    if (groups.drop words).any (· != 0) then none
    else some (fun i => if i.val < words then UInt16.ofNat (groups.getD i 0) else 0, words)
  | _ => none

/-- `zones_conflict`: can one packet be in both scopes. -/
def zonesConflict (a b : String) : Bool := a.isEmpty || b.isEmpty || a == b

/-- The first `n` words of two prefixes agree. -/
def sameWords (a b : PrefixWords) (n : ℕ) : Bool := decide (∀ i : Fin 4, i.val < n → a i = b i)

/-- `find_overlap`: the name of the first rule seen whose prefix is nested with the
candidate's and whose zone scope can meet it. -/
def findOverlap (seen : List (PrefixWords × ℕ × String × String)) (candidate : PrefixWords)
    (candidateWords : ℕ) (candidateZone : String) : Option String :=
  (seen.find? fun (p, words, _, fromZone) =>
    sameWords candidate p (min candidateWords words) && zonesConflict candidateZone fromZone).map
      fun (_, _, name, _) => name

/-- The accumulator of the snapshot loop. -/
structure Build where
  state : Nptv6State
  internalSeen : List (PrefixWords × ℕ × String × String)
  externalSeen : List (PrefixWords × ℕ × String × String)

/-- One round of the loop of `try_from_snapshots`. -/
def addSnapshot (b : Build) (snap : Nptv6RuleSnapshot) : Except SnapshotIntegrityError Build :=
  match parsePrefix snap.internalPrefix with
  | none => .error (.nptv6UnparseableRule snap.name (.internalPrefix snap.internalPrefix))
  | some (internalPrefix, iwords) =>
  match parsePrefix snap.externalPrefix with
  | none => .error (.nptv6UnparseableRule snap.name (.externalPrefix snap.externalPrefix))
  | some (externalPrefix, ewords) =>
  if iwords ≠ ewords then
    .error (.nptv6UnparseableRule snap.name
      (.prefixLengths snap.internalPrefix snap.externalPrefix))
  else
  match findOverlap b.internalSeen internalPrefix iwords snap.fromZone with
  | some prev => .error (.nptv6OverlappingPrefix prev snap.name .outbound)
  | none =>
  match findOverlap b.externalSeen externalPrefix ewords snap.fromZone with
  | some prev => .error (.nptv6OverlappingPrefix prev snap.name .inbound)
  | none =>
    let rule : Nptv6Rule :=
      { fromZone := snap.fromZone
        internalPrefix := internalPrefix
        externalPrefix := externalPrefix
        adjustment := computeAdjustment internalPrefix externalPrefix iwords
        prefixWords := iwords }
    .ok
      { state := ⟨b.state.inbound ++ [rule], b.state.outbound ++ [rule]⟩
        internalSeen := b.internalSeen ++ [(internalPrefix, iwords, snap.name, snap.fromZone)]
        externalSeen := b.externalSeen ++ [(externalPrefix, ewords, snap.name, snap.fromZone)] }

/-- `try_from_snapshots`: one bad rule or one overlap refuses the whole list. -/
def tryFromSnapshots (snaps : List Nptv6RuleSnapshot) : Except SnapshotIntegrityError Nptv6State :=
  (snaps.foldlM addSnapshot ⟨⟨[], []⟩, [], []⟩).map Build.state

/-- `prefix_matches`. -/
def prefixMatches (addrWords : Words) (p : PrefixWords) (n : ℕ) : Bool :=
  decide (∀ i : Fin 4, i.val < n → addrWords (i.castLE (by omega)) = p i)

/-- `first_non_ffff_iid_word`: the word that takes the adjustment. -/
def firstNonFfffIidWord (words : Words) (n : ℕ) : Option (Fin 8) :=
  if n < 4 then some 3 else [4, 5, 6, 7].find? fun i => words i != 0xFFFF

/-- `iid_is_all_zero`. -/
def iidIsAllZero (words : Words) (n : ℕ) : Bool :=
  decide (4 ≤ n) && [4, 5, 6, 7].all fun i => words i == 0

/-- The prefix words rewritten in place. -/
def setPrefix (words : Words) (p : PrefixWords) (n : ℕ) : Words := fun i =>
  if h : i.val < 4 then (if i.val < n then p ⟨i, h⟩ else words i) else words i

/-- The fixup of the selected word, skipped for a checksum-neutral pair. -/
def fixWord (neutral : Bool) (adj : UInt16) (i : Fin 8) (words : Words) : Words :=
  if neutral then words else Function.update words i (adjustWord (words i) adj)

/-- The body both lookups share: the matched address with its prefix replaced by
`target` and one word adjusted by `adj`, or `none` where the mapping is refused.
`neutral` is `is_zero_adjustment` of the rule's adjustment. -/
def rewrite (target : PrefixWords) (neutral : Bool) (adj : UInt16) (n : ℕ) (words : Words) :
    Option Words :=
  if (n == 3 && words 3 == 0xFFFF && !neutral) || iidIsAllZero words n then none
  else
    match firstNonFfffIidWord words n with
    | none => none
    | some adjWord =>
      let words := fixWord neutral adj adjWord (setPrefix words target n)
      if iidIsAllZero words n then none else some words

/-- The outcome of a lookup that found `rule`, on the address `addr`. -/
def outcome (addr : Ipv6Addr) : Option Words → Nptv6Translation × Ipv6Addr
  | none => (.untranslatable, addr)
  | some words => (.translated, wordsToIpv6 words)

/-- `translate_inbound_result`: the first rule whose zone and external prefix match
rewrites the address to the internal prefix, with the complemented adjustment. -/
def Nptv6State.translateInboundResult (st : Nptv6State) (dst : Ipv6Addr) (ingressZone : String) :
    Nptv6Translation × Ipv6Addr :=
  let words := ipv6ToWords dst
  match st.inbound.find? fun r =>
      r.zoneMatches ingressZone && prefixMatches words r.externalPrefix r.prefixWords with
  | none => (.noMatch, dst)
  | some rule =>
    outcome dst (rewrite rule.internalPrefix (isZeroAdjustment rule.adjustment)
      (~~~rule.adjustment) rule.prefixWords words)

/-- `translate_outbound_result`: the internal prefix matches, the external one is
written. -/
def Nptv6State.translateOutboundResult (st : Nptv6State) (src : Ipv6Addr) (egressZone : String) :
    Nptv6Translation × Ipv6Addr :=
  let words := ipv6ToWords src
  match st.outbound.find? fun r =>
      r.zoneMatches egressZone && prefixMatches words r.internalPrefix r.prefixWords with
  | none => (.noMatch, src)
  | some rule =>
    outcome src (rewrite rule.externalPrefix (isZeroAdjustment rule.adjustment)
      rule.adjustment rule.prefixWords words)

/-! ## The rewritten address

`rewrite` is inverted by the rewrite with the two prefixes exchanged and the
adjustment complemented. The work is to see that the second pass selects the same
word: in front of it both addresses hold `0xFFFF`, and the word itself holds
`0xFFFF` in neither. -/

theorem setPrefix_of_lt {words : Words} {p : PrefixWords} {n : ℕ} {i : Fin 8} (hi : i.val < 4)
    (hn : i.val < n) : setPrefix words p n i = p ⟨i, hi⟩ := by
  simp only [setPrefix, dif_pos hi, if_pos hn]

theorem setPrefix_of_ge {words : Words} {p : PrefixWords} {n : ℕ} {i : Fin 8} (hn : n ≤ i.val) :
    setPrefix words p n i = words i := by
  simp only [setPrefix, if_neg (Nat.not_lt.mpr hn), dite_eq_ite, ite_self]

theorem prefixMatches_iff {words : Words} {p : PrefixWords} {n : ℕ} :
    prefixMatches words p n = true ↔ ∀ i : Fin 4, i.val < n → words (i.castLE (by omega)) = p i := by
  simp only [prefixMatches, decide_eq_true_eq]

/-- The selected word lies behind the prefix, and is not `0xFFFF` unless a /48 takes
its fixed word 3. -/
theorem firstNonFfffIidWord_spec {words : Words} {n : ℕ} {j : Fin 8} (hn : n = 3 ∨ n = 4)
    (h : firstNonFfffIidWord words n = some j) :
    n ≤ j.val ∧ (n = 3 → j = 3) ∧ (n = 4 → words j ≠ 0xFFFF) := by
  rcases hn with rfl | rfl
  · rw [firstNonFfffIidWord, if_pos (by omega)] at h
    obtain rfl := Option.some.inj h
    exact ⟨le_refl _, fun _ => rfl, by omega⟩
  · rw [firstNonFfffIidWord, if_neg (by omega)] at h
    have hmem := List.mem_of_find?_eq_some h
    have hne := List.find?_some h
    refine ⟨?_, by omega, fun _ => by simpa using hne⟩
    simp only [List.mem_cons, List.not_mem_nil, or_false] at hmem
    rcases hmem with rfl | rfl | rfl | rfl <;> decide

/-- The selection depends only on which words behind the prefix are `0xFFFF`. -/
theorem firstNonFfffIidWord_congr {words words' : Words} {n : ℕ}
    (h : ∀ i : Fin 8, 4 ≤ i.val → (words i = 0xFFFF ↔ words' i = 0xFFFF)) :
    firstNonFfffIidWord words n = firstNonFfffIidWord words' n := by
  have hp : ∀ i : Fin 8, 4 ≤ i.val → (words i != 0xFFFF) = (words' i != 0xFFFF) := by
    intro i hi
    rw [Bool.eq_iff_iff]
    simp only [bne_iff_ne, ne_eq, h i hi]
  simp only [firstNonFfffIidWord, List.find?, hp 4 (by decide), hp 5 (by decide),
    hp 6 (by decide), hp 7 (by decide)]

/-- The pieces of a successful rewrite. -/
theorem rewrite_eq_some {target : PrefixWords} {neutral : Bool} {adj : UInt16} {n : ℕ}
    {words words' : Words} (h : rewrite target neutral adj n words = some words') :
    ¬(n = 3 ∧ words 3 = 0xFFFF ∧ neutral = false) ∧ iidIsAllZero words n = false
      ∧ iidIsAllZero words' n = false
      ∧ ∃ j, firstNonFfffIidWord words n = some j
        ∧ words' = fixWord neutral adj j (setPrefix words target n) := by
  rw [rewrite] at h
  split_ifs at h with hchk
  simp only [Bool.or_eq_true, Bool.and_eq_true, beq_iff_eq, Bool.not_eq_true', not_or,
    Bool.not_eq_true] at hchk
  obtain ⟨hffff, hzero⟩ := hchk
  split at h
  · cases h
  · rename_i j hj
    dsimp only at h
    split_ifs at h with hz
    obtain rfl := Option.some.inj h
    exact ⟨fun ⟨h3, hw, hneu⟩ => hffff ⟨⟨h3, hw⟩, hneu⟩, hzero, by simpa using hz, j, hj, rfl⟩

/-- **A rewrite is undone by the opposite one.** -/
theorem rewrite_inverse {source target : PrefixWords} {neutral : Bool} {adj : UInt16} {n : ℕ}
    {words words' : Words} (hn : n = 3 ∨ n = 4) (hsrc : prefixMatches words source n = true)
    (h : rewrite target neutral adj n words = some words') :
    prefixMatches words' target n = true
      ∧ rewrite source neutral (~~~adj) n words' = some words := by
  obtain ⟨hffff, hzero, hzero', j, hj, hw'⟩ := rewrite_eq_some h
  obtain ⟨hjn, hj3, hj4⟩ := firstNonFfffIidWord_spec hn hj
  -- away from the selected word the new address is the old one with its prefix set
  have hother : ∀ i : Fin 8, i ≠ j → words' i = setPrefix words target n i := by
    intro i hi
    rw [hw', fixWord]
    split_ifs
    · rfl
    · rw [Function.update_of_ne hi]
  have hselected : words' j = if neutral then words j else adjustWord (words j) adj := by
    rw [hw', fixWord]
    split_ifs
    · exact setPrefix_of_ge hjn
    · rw [Function.update_self, setPrefix_of_ge hjn]
  have hne : neutral = false → words j ≠ 0xFFFF := by
    intro hneu
    rcases hn with h3 | h4
    · intro hw
      exact hffff ⟨h3, by rw [← hj3 h3]; exact hw, hneu⟩
    · exact hj4 h4
  have hsame : ∀ i : Fin 8, n ≤ i.val → (words i = 0xFFFF ↔ words' i = 0xFFFF) := by
    intro i hi
    by_cases hij : i = j
    · subst hij
      rw [hselected]
      by_cases hneu : neutral = true
      · rw [if_pos hneu]
      · rw [if_neg hneu]
        exact iff_of_false (hne (by simpa using hneu)) (adjustWord_ne _ _)
    · rw [hother i hij, setPrefix_of_ge hi]
  have hj' : firstNonFfffIidWord words' n = some j := by
    rw [← hj]
    exact (firstNonFfffIidWord_congr fun i hi => hsame i (by omega)).symm
  -- the second pass writes the old prefix over the new one and undoes the fixup
  have hback : fixWord neutral (~~~adj) j (setPrefix words' source n) = words := by
    funext i
    by_cases hij : i = j
    · subst hij
      rw [fixWord]
      by_cases hneu : neutral = true
      · rw [if_pos hneu, setPrefix_of_ge hjn, hselected, if_pos hneu]
      · rw [if_neg hneu, Function.update_self, setPrefix_of_ge hjn, hselected, if_neg hneu]
        exact adjustWord_compl _ _ (hne (by simpa using hneu))
    · have hfix : fixWord neutral (~~~adj) j (setPrefix words' source n) i
          = setPrefix words' source n i := by
        rw [fixWord]
        split_ifs
        · rfl
        · rw [Function.update_of_ne hij]
      rw [hfix]
      by_cases hin : i.val < n
      · have hi4 : i.val < 4 := by omega
        rw [setPrefix_of_lt hi4 hin]
        exact (prefixMatches_iff.mp hsrc ⟨i, hi4⟩ hin).symm
      · rw [setPrefix_of_ge (by omega), hother i hij, setPrefix_of_ge (by omega)]
  refine ⟨?_, ?_⟩
  · rw [prefixMatches_iff]
    intro i hi
    have hij : (i.castLE (by omega) : Fin 8) ≠ j := by
      intro heq
      have : i.val = j.val := congrArg Fin.val heq
      omega
    rw [hother _ hij, setPrefix_of_lt (by simp) (by simpa using hi)]
    rfl
  · rw [rewrite, if_neg ?_, hj']
    · simp only [hback, hzero, Bool.false_eq_true, if_false]
    · simp only [Bool.or_eq_true, Bool.and_eq_true, beq_iff_eq, Bool.not_eq_true', not_or, hzero',
        Bool.false_eq_true, not_false_eq_true, and_true]
      rintro ⟨⟨h3, hw⟩, hneu⟩
      have hw3 : words' j = 0xFFFF := by rw [hj3 h3]; exact hw
      exact hne hneu ((hsame j (by omega)).mpr hw3)

/-! ## The selected rule

An accepted list is one in which no two rules can match the same address in the
same zone, in either direction. `Separated` is that statement about one prefix of
each rule, and it is all a first-match lookup needs. -/

/-- No packet is in the scope of both rules, or the prefixes part within the words
both rules look at. -/
def Apart (key : Nptv6Rule → PrefixWords) (r r' : Nptv6Rule) : Prop :=
  zonesConflict r.fromZone r'.fromZone = false ∨
    ∃ i : Fin 4, i.val < min r.prefixWords r'.prefixWords ∧ key r i ≠ key r' i

/-- Every two rules of the list are apart. -/
def Separated (key : Nptv6Rule → PrefixWords) (rules : List Nptv6Rule) : Prop :=
  rules.Pairwise (Apart key)

/-- What `try_from_snapshots` guarantees of the state it returns. -/
structure Nptv6State.WellFormed (st : Nptv6State) : Prop where
  same : st.outbound = st.inbound
  words : ∀ r ∈ st.inbound, r.prefixWords = 3 ∨ r.prefixWords = 4
  internal : Separated Nptv6Rule.internalPrefix st.inbound
  external : Separated Nptv6Rule.externalPrefix st.inbound

theorem zonesConflict_comm (a b : String) : zonesConflict a b = zonesConflict b a := by
  rw [Bool.eq_iff_iff]
  simp only [zonesConflict, Bool.or_eq_true, beq_iff_eq]
  constructor
  · rintro ((h | h) | h)
    · exact .inl (.inr h)
    · exact .inl (.inl h)
    · exact .inr h.symm
  · rintro ((h | h) | h)
    · exact .inl (.inr h)
    · exact .inl (.inl h)
    · exact .inr h.symm

/-- Two rules that admit one zone conflict. -/
theorem zonesConflict_of_matches {r r' : Nptv6Rule} {zone : String}
    (h : r.zoneMatches zone = true) (h' : r'.zoneMatches zone = true) :
    zonesConflict r.fromZone r'.fromZone = true := by
  simp only [Nptv6Rule.zoneMatches, zonesConflict, Bool.or_eq_true, beq_iff_eq] at h h' ⊢
  rcases h with h | rfl
  · exact .inl (.inl h)
  · rcases h' with h' | h'
    · exact .inl (.inr h')
    · exact .inr h'.symm

theorem Apart.symm {key : Nptv6Rule → PrefixWords} {r r' : Nptv6Rule} (h : Apart key r r') :
    Apart key r' r := by
  rcases h with h | ⟨i, hi, hne⟩
  · exact .inl (by rw [zonesConflict_comm]; exact h)
  · exact .inr ⟨i, by omega, fun heq => hne heq.symm⟩

/-- Rules that are apart do not match one address in one zone. -/
theorem Apart.not_both {key : Nptv6Rule → PrefixWords} {r r' : Nptv6Rule} {zone : String}
    {words : Words} (hapart : Apart key r r')
    (hz : r.zoneMatches zone = true) (hm : prefixMatches words (key r) r.prefixWords = true)
    (hz' : r'.zoneMatches zone = true) (hm' : prefixMatches words (key r') r'.prefixWords = true) :
    False := by
  rcases hapart with h | ⟨i, hi, hne⟩
  · rw [zonesConflict_of_matches hz hz'] at h
    cases h
  · have h1 := prefixMatches_iff.mp hm i (by omega)
    have h2 := prefixMatches_iff.mp hm' i (by omega)
    exact hne (h1.symm.trans h2)

/-- In a separated list a matching rule is the one the lookup finds. -/
theorem find_of_separated {key : Nptv6Rule → PrefixWords} {zone : String} {words : Words}
    {rules : List Nptv6Rule} (hsep : Separated key rules) {r : Nptv6Rule} (hr : r ∈ rules)
    (hz : r.zoneMatches zone = true) (hm : prefixMatches words (key r) r.prefixWords = true) :
    rules.find? (fun r => r.zoneMatches zone && prefixMatches words (key r) r.prefixWords)
      = some r := by
  induction rules with
  | nil => cases hr
  | cons head rest ih =>
    obtain ⟨hhead, hrest⟩ := List.pairwise_cons.mp hsep
    rw [List.find?_cons]
    rcases List.mem_cons.mp hr with rfl | hr
    · rw [hz, hm]; rfl
    · have hno : (head.zoneMatches zone && prefixMatches words (key head) head.prefixWords)
          = false := by
        by_contra hyes
        simp only [Bool.not_eq_false, Bool.and_eq_true] at hyes
        exact (hhead r hr).not_both hyes.1 hyes.2 hz hm
      rw [hno]
      exact ih hrest hr

/-! ### What the snapshot loop keeps -/

/-- The seen list is the rules' prefixes in one direction. -/
def SeenOf (key : Nptv6Rule → PrefixWords) (rules : List Nptv6Rule)
    (seen : List (PrefixWords × ℕ × String × String)) : Prop :=
  seen.map (fun s => (s.1, s.2.1, s.2.2.2)) = rules.map fun r => (key r, r.prefixWords, r.fromZone)

/-- The invariant of the loop: the state so far is well formed and both seen lists
describe it. -/
structure Build.Inv (b : Build) : Prop where
  wf : b.state.WellFormed
  internalSeen : SeenOf Nptv6Rule.internalPrefix b.state.inbound b.internalSeen
  externalSeen : SeenOf Nptv6Rule.externalPrefix b.state.inbound b.externalSeen

/-- A candidate without an overlap is apart from every rule seen. -/
theorem apart_of_findOverlap {key : Nptv6Rule → PrefixWords} {rules : List Nptv6Rule}
    {seen : List (PrefixWords × ℕ × String × String)} (hseen : SeenOf key rules seen)
    {r : Nptv6Rule} (h : findOverlap seen (key r) r.prefixWords r.fromZone = none) :
    ∀ r' ∈ rules, Apart key r' r := by
  intro r' hr'
  have hmem : (key r', r'.prefixWords, r'.fromZone) ∈
      seen.map fun s => (s.1, s.2.1, s.2.2.2) := by
    rw [show seen.map (fun s => (s.1, s.2.1, s.2.2.2)) = _ from hseen]
    exact List.mem_map_of_mem hr'
  obtain ⟨⟨p, w, name, z⟩, hs, heq⟩ := List.mem_map.mp hmem
  obtain ⟨rfl, rfl, rfl⟩ : p = key r' ∧ w = r'.prefixWords ∧ z = r'.fromZone := by
    simpa only [Prod.mk.injEq] using heq
  rw [findOverlap, Option.map_eq_none_iff, List.find?_eq_none] at h
  have hno := h _ hs
  simp only [Bool.and_eq_true, not_and, Bool.not_eq_true] at hno
  refine Apart.symm ?_
  by_cases hsame : sameWords (key r) (key r') (min r.prefixWords r'.prefixWords) = true
  · exact .inl (hno hsame)
  · simp only [sameWords, decide_eq_true_eq, not_forall] at hsame
    obtain ⟨i, hi, hne⟩ := hsame
    exact .inr ⟨i, hi, hne⟩

theorem parsePrefix_words {s : String} {p : PrefixWords} {n : ℕ}
    (h : parsePrefix s = some (p, n)) : n = 3 ∨ n = 4 := by
  simp only [parsePrefix, Option.bind_eq_bind] at h
  split at h
  · simp only [Option.bind_eq_some_iff] at h
    obtain ⟨len, -, words, hw, groups, -, hg⟩ := h
    split_ifs at hg
    obtain ⟨-, rfl⟩ := Prod.mk.inj (Option.some.inj hg)
    rw [wordsOfLen.eq_def] at hw
    split at hw
    · exact .inl (Option.some.inj hw).symm
    · exact .inr (Option.some.inj hw).symm
    · cases hw
  · cases h

/-- One round keeps the invariant: the new rule is apart from every rule seen, in
both directions, because both overlap checks passed. -/
theorem addSnapshot_spec {b b' : Build} {snap : Nptv6RuleSnapshot} (hinv : b.Inv)
    (h : addSnapshot b snap = .ok b') : b'.Inv := by
  rw [addSnapshot] at h
  split at h
  · cases h
  rename_i internal iwords hi
  split at h
  · cases h
  rename_i external ewords he
  split_ifs at h with hlen
  split at h
  · cases h
  rename_i hover
  split at h
  · cases h
  rename_i hover'
  obtain rfl := Except.ok.inj h
  have hlen : iwords = ewords := not_not.mp hlen
  subst hlen
  set rule : Nptv6Rule := ⟨snap.fromZone, internal, external,
    computeAdjustment internal external iwords, iwords⟩ with hrule
  have hint : ∀ r' ∈ b.state.inbound, Apart Nptv6Rule.internalPrefix r' rule :=
    apart_of_findOverlap hinv.internalSeen hover
  have hext : ∀ r' ∈ b.state.inbound, Apart Nptv6Rule.externalPrefix r' rule :=
    apart_of_findOverlap hinv.externalSeen hover'
  refine ⟨⟨?_, ?_, ?_, ?_⟩, ?_, ?_⟩
  · rw [hinv.wf.same]
  · intro r hr
    rcases List.mem_append.mp hr with hr | hr
    · exact hinv.wf.words r hr
    · rw [List.mem_singleton.mp hr]; exact parsePrefix_words hi
  · exact List.pairwise_append.mpr ⟨hinv.wf.internal, List.pairwise_singleton _ _,
      fun r hr r' hr' => by rw [List.mem_singleton.mp hr']; exact hint r hr⟩
  · exact List.pairwise_append.mpr ⟨hinv.wf.external, List.pairwise_singleton _ _,
      fun r hr r' hr' => by rw [List.mem_singleton.mp hr']; exact hext r hr⟩
  · have := hinv.internalSeen
    simp only [SeenOf, List.map_append, List.map_cons, List.map_nil] at this ⊢
    rw [this]
  · have := hinv.externalSeen
    simp only [SeenOf, List.map_append, List.map_cons, List.map_nil] at this ⊢
    rw [this]

theorem foldlM_addSnapshot_spec (snaps : List Nptv6RuleSnapshot) :
    ∀ {b b' : Build}, b.Inv → snaps.foldlM addSnapshot b = .ok b' → b'.Inv := by
  induction snaps with
  | nil =>
    intro b b' hinv h
    obtain rfl := Except.ok.inj h
    exact hinv
  | cons snap rest ih =>
    intro b b' hinv h
    rw [List.foldlM_cons] at h
    cases hs : addSnapshot b snap with
    | error e => rw [hs] at h; cases h
    | ok b1 => rw [hs] at h; exact ih (addSnapshot_spec hinv hs) h

/-- **An accepted list is well formed.** -/
theorem tryFromSnapshots_spec {snaps : List Nptv6RuleSnapshot} {st : Nptv6State}
    (h : tryFromSnapshots snaps = .ok st) : st.WellFormed := by
  rw [tryFromSnapshots] at h
  cases hb : snaps.foldlM addSnapshot ⟨⟨[], []⟩, [], []⟩ with
  | error e => rw [hb] at h; cases h
  | ok b =>
    rw [hb] at h
    obtain rfl := Except.ok.inj h
    refine (foldlM_addSnapshot_spec snaps ?_ hb).wf
    exact ⟨⟨rfl, by simp, List.Pairwise.nil, List.Pairwise.nil⟩, rfl, rfl⟩

/-! ## The two directions undo each other -/

/-- A lookup that translated found a rule and rewrote the address with it. -/
theorem lookup_translated {key target : Nptv6Rule → PrefixWords} {adj : Nptv6Rule → UInt16}
    {rules : List Nptv6Rule} {a a' : Ipv6Addr} {zone : String}
    (h : (match rules.find? fun r =>
          r.zoneMatches zone && prefixMatches (ipv6ToWords a) (key r) r.prefixWords with
        | none => (Nptv6Translation.noMatch, a)
        | some rule => outcome a (rewrite (target rule) (isZeroAdjustment rule.adjustment)
            (adj rule) rule.prefixWords (ipv6ToWords a))) = (.translated, a')) :
    ∃ rule ∈ rules, rule.zoneMatches zone = true
      ∧ prefixMatches (ipv6ToWords a) (key rule) rule.prefixWords = true
      ∧ rewrite (target rule) (isZeroAdjustment rule.adjustment) (adj rule) rule.prefixWords
          (ipv6ToWords a) = some (ipv6ToWords a') := by
  split at h
  · cases (Prod.mk.inj h).1
  · rename_i rule hfind
    have hm := List.find?_some hfind
    rw [Bool.and_eq_true] at hm
    refine ⟨rule, List.mem_of_find?_eq_some hfind, hm.1, hm.2, ?_⟩
    cases hrw : rewrite (target rule) (isZeroAdjustment rule.adjustment) (adj rule)
        rule.prefixWords (ipv6ToWords a) with
    | none => rw [hrw] at h; cases (Prod.mk.inj h).1
    | some words =>
      rw [hrw] at h
      obtain ⟨-, rfl⟩ := Prod.mk.inj h
      rw [ipv6ToWords_wordsToIpv6]

theorem inbound_of_outbound {st : Nptv6State} (hwf : st.WellFormed) {a a' : Ipv6Addr}
    {zone : String} (h : st.translateOutboundResult a zone = (.translated, a')) :
    st.translateInboundResult a' zone = (.translated, a) := by
  obtain ⟨rule, hmem, hz, hm, hrw⟩ := lookup_translated h
  rw [hwf.same] at hmem
  obtain ⟨hm', hback⟩ := rewrite_inverse (hwf.words rule hmem) hm hrw
  rw [Nptv6State.translateInboundResult]
  rw [find_of_separated hwf.external hmem hz hm']
  dsimp only
  rw [hback, outcome, wordsToIpv6_ipv6ToWords]

theorem outbound_of_inbound {st : Nptv6State} (hwf : st.WellFormed) {a a' : Ipv6Addr}
    {zone : String} (h : st.translateInboundResult a zone = (.translated, a')) :
    st.translateOutboundResult a' zone = (.translated, a) := by
  obtain ⟨rule, hmem, hz, hm, hrw⟩ := lookup_translated h
  obtain ⟨hm', hback⟩ := rewrite_inverse (hwf.words rule hmem) hm hrw
  rw [compl_compl] at hback
  rw [Nptv6State.translateOutboundResult, hwf.same]
  rw [find_of_separated hwf.internal hmem hz hm']
  dsimp only
  rw [hback, outcome, wordsToIpv6_ipv6ToWords]

/-- **NPTv6 translation is invertible.** For every accepted rule list and zone, what
one direction translates the other translates back exactly, so in each direction no
two addresses are translated to the same one. -/
theorem translate_invertible {snaps : List Nptv6RuleSnapshot} {st : Nptv6State}
    (h : tryFromSnapshots snaps = .ok st) (zone : String) :
    (∀ a a', st.translateOutboundResult a zone = (.translated, a') →
      st.translateInboundResult a' zone = (.translated, a))
    ∧ (∀ b b', st.translateInboundResult b zone = (.translated, b') →
      st.translateOutboundResult b' zone = (.translated, b))
    ∧ (∀ a₁ a₂ c, st.translateOutboundResult a₁ zone = (.translated, c) →
      st.translateOutboundResult a₂ zone = (.translated, c) → a₁ = a₂)
    ∧ (∀ b₁ b₂ c, st.translateInboundResult b₁ zone = (.translated, c) →
      st.translateInboundResult b₂ zone = (.translated, c) → b₁ = b₂) := by
  have hwf := tryFromSnapshots_spec h
  refine ⟨fun a a' => inbound_of_outbound hwf, fun b b' => outbound_of_inbound hwf, ?_, ?_⟩
  · intro a₁ a₂ c h₁ h₂
    have e := (inbound_of_outbound hwf h₁).symm.trans (inbound_of_outbound hwf h₂)
    exact (Prod.mk.inj e).2
  · intro b₁ b₂ c h₁ h₂
    have e := (outbound_of_inbound hwf h₁).symm.trans (outbound_of_inbound hwf h₂)
    exact (Prod.mk.inj e).2

/-- One /48 rule: `fd00:5:6::/48` inside, `2001:db8:1::/48` outside, any zone. -/
def oneRule : List Nptv6RuleSnapshot :=
  [⟨"r1", "", "fd00:5:6::/48", "2001:db8:1::/48"⟩]

/-- `fd00:5:6:7::9`, and what `oneRule` makes of it outbound. -/
def insideHost : Ipv6Addr := wordsToIpv6 ![0xfd00, 5, 6, 7, 0, 0, 0, 9]
def outsideHost : Ipv6Addr := wordsToIpv6 ![0x2001, 0xdb8, 1, 0xcf58, 0, 0, 0, 9]

theorem translate_invertible_oneRule :
    ∃ st, tryFromSnapshots oneRule = .ok st
      ∧ st.translateOutboundResult insideHost "untrust" = (.translated, outsideHost)
      ∧ st.translateInboundResult outsideHost "untrust" = (.translated, insideHost) := by
  have hout : (match tryFromSnapshots oneRule with
      | .ok st => decide (st.translateOutboundResult insideHost "untrust"
          = (.translated, outsideHost))
      | .error _ => false) = true := by decide +kernel
  cases h : tryFromSnapshots oneRule with
  | error e => rw [h] at hout; cases hout
  | ok st =>
    rw [h] at hout
    have hout := of_decide_eq_true hout
    exact ⟨st, rfl, hout, (translate_invertible h "untrust").1 _ _ hout⟩

end Xpf.Nptv6
