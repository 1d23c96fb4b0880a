/-
The addresses of a rule as its snapshot lists them.

A side of a rule is a union of prefixes: the literals it lists and the prefixes of its
address books, with the words `any`, `any4` and `any6` as prefixes of length zero. This file
says which prefixes these are (`literalPart`, `bookPart`) and that the sets and flags the
parser builds from them decide membership in their union (`sideMatches_eq`).

Three things in it are choices of the parser. A side in the old shape, without books and
literals, that names no prefix of a family and no word at all, stands for every address of
that family. A list of literals beyond the budget of a prefix set stands for none. And a
side whose names could not be looked up stands for every address, and is not excluded.
-/
import Xpf.PolicyParse

set_option autoImplicit false

namespace Xpf.Policies

open Xpf.Tables Xpf.PrefixSets

variable {w : ℕ}

/-! ## Sets and the prefixes they stand for -/

/-- The set stands for the union of the prefixes. -/
structure StandsFor (s : PrefixSet w) (prefixes : List (Prefix w)) : Prop where
  contains_iff : ∀ ip, s.contains ip = true ↔ ∃ p ∈ prefixes, p.Covers ip
  none_iff : isMatchNone s = true ↔ prefixes = []

/-- The prefix of length zero. -/
def everyAddress (w : ℕ) : Prefix w := Prefix.fromNet 0 0 (Nat.zero_le w)

/-- A list of literals, unless it exceeds the budget of a prefix set. -/
def withinBudget (prefixes : List (Prefix w)) : List (Prefix w) :=
  if (tryFromV3Literals prefixes).toOption.isSome then prefixes else []

theorem everyAddress_covers (ip : BitVec w) : (everyAddress w).Covers ip := by
  have hlen : (everyAddress w).prefixLen = 0 := rfl
  rw [Prefix.Covers, hlen, Nat.sub_zero, Nat.div_eq_of_lt ip.isLt, Nat.div_eq_of_lt (BitVec.isLt _)]

theorem standsFor_matchAny : StandsFor (w := w) .matchAny [everyAddress w] := by
  constructor
  · intro ip
    exact ⟨fun _ => ⟨_, List.mem_singleton_self _, everyAddress_covers ip⟩, fun _ => rfl⟩
  · simp [isMatchNone]

/-- A set that the factory built is `MatchNone` only from the empty list. -/
theorem build_eq_matchNone {empty s : PrefixSet w} {prefixes : List (Prefix w)}
    (hne : prefixes ≠ []) (h : build empty prefixes = .ok s) : s ≠ .matchNone := by
  rw [build, if_neg (by rw [List.isEmpty_iff]; exact hne)] at h
  split_ifs at h
  · obtain rfl := Except.ok.inj h
    rintro ⟨⟩
  · obtain rfl := Except.ok.inj h
    rintro ⟨⟩
  · cases hmerged : mergedRanges prefixes with
    | error e => rw [hmerged] at h; cases h
    | ok rn =>
      rw [hmerged] at h
      obtain rfl := Except.ok.inj h
      rintro ⟨⟩

theorem standsFor_of_ok {s : PrefixSet w} {prefixes : List (Prefix w)}
    (h : tryFromV3Literals prefixes = .ok s) : StandsFor s prefixes := by
  obtain ⟨-, hcontains, -⟩ := (contains_exact prefixes s).2 h
  refine ⟨hcontains, ?_⟩
  rw [isMatchNone, decide_eq_true_eq]
  constructor
  · intro hnone
    by_contra hne
    exact build_eq_matchNone hne h hnone
  · rintro rfl
    exact (Except.ok.inj h).symm

theorem standsFor_fromV3Literals (prefixes : List (Prefix w)) :
    StandsFor (fromV3Literals prefixes) (withinBudget prefixes) := by
  rw [withinBudget, fromV3Literals]
  cases hbuild : tryFromV3Literals prefixes with
  | ok s => exact standsFor_of_ok hbuild
  | error e =>
    refine ⟨fun ip => ?_, ?_⟩
    · simp [Except.toOption, PrefixSet.contains]
    · simp [Except.toOption, isMatchNone]

/-- With a prefix, the two factories build the same set. -/
theorem fromPrefixes_eq {prefixes : List (Prefix w)} (hne : prefixes ≠ []) :
    fromPrefixes prefixes = fromV3Literals prefixes := by
  have hbuild : tryFromPrefixes prefixes = tryFromV3Literals prefixes := by
    have hfull : ¬ prefixes.isEmpty = true := by rwa [List.isEmpty_iff]
    rw [tryFromPrefixes, tryFromV3Literals, build, build, if_neg hfull, if_neg hfull]
  rw [fromPrefixes, fromV3Literals, hbuild]

/-- A list with a prefix of length zero is within the budget. -/
theorem withinBudget_of_every {prefixes : List (Prefix w)} (h : everyAddress w ∈ prefixes) :
    withinBudget prefixes = prefixes := by
  have hzero : (prefixes.any fun p => p.prefixLen == 0) = true := List.any_eq_true.mpr ⟨_, h, rfl⟩
  have hfull : ¬ prefixes.isEmpty = true := by
    rw [List.isEmpty_iff]
    exact List.ne_nil_of_mem h
  rw [withinBudget, tryFromV3Literals, build, if_neg hfull, if_pos hzero]
  rfl

/-! ## Literals -/

/-- The prefixes a list of literals stands for: without a prefix of the family and without a
word, an old-shaped list leaves the family open. -/
def effective (familyScoped : Bool) (empty : EmptyMeans) (prefixes : List (Prefix w)) : List (Prefix w) :=
  if prefixes.isEmpty && !familyScoped && empty = .matchAny then [everyAddress w]
  else withinBudget prefixes

section Literals

variable {isAny : String → Bool} {net : String → Option (Prefix w)}

/-- A token as a prefix: a word for the family has length zero. -/
def tokenPrefix (isAny : String → Bool) (net : String → Option (Prefix w)) (tok : String) :
    Option (Prefix w) :=
  if isAny tok then some (everyAddress w) else net tok

theorem standsFor_literalSet (tokens : List String) {familyScoped : Bool} (empty : EmptyMeans)
    (hscoped : tokens.any isAny = true → familyScoped = true) :
    StandsFor (literalSet (tokens.any isAny) familyScoped empty (tokens.filterMap net))
      (effective familyScoped empty (tokens.filterMap (tokenPrefix isAny net))) := by
  rw [literalSet, effective]
  cases hany : tokens.any isAny with
  | true =>
    -- a word of the family: the prefix of length zero is in the list
    rw [hscoped hany, if_pos rfl, Bool.not_true, Bool.and_false, Bool.false_and, if_neg Bool.false_ne_true]
    have hmem : everyAddress w ∈ tokens.filterMap (tokenPrefix isAny net) := by
      obtain ⟨tok, htok, hword⟩ := List.any_eq_true.mp hany
      exact List.mem_filterMap.mpr ⟨tok, htok, by rw [tokenPrefix, if_pos hword]⟩
    rw [withinBudget_of_every hmem]
    refine ⟨fun ip => ⟨fun _ => ⟨_, hmem, everyAddress_covers ip⟩, fun _ => rfl⟩, ?_⟩
    simp only [isMatchNone, reduceCtorEq, decide_false, Bool.false_eq_true, false_iff]
    exact List.ne_nil_of_mem hmem
  | false =>
    have hsame : tokens.filterMap (tokenPrefix isAny net) = tokens.filterMap net := by
      refine List.filterMap_congr fun tok htok => ?_
      rw [tokenPrefix, if_neg]
      intro hword
      exact Bool.false_ne_true (hany ▸ List.any_eq_true.mpr ⟨tok, htok, hword⟩)
    rw [if_neg Bool.false_ne_true, hsame]
    cases hopen : familyScoped || decide (empty = .matchNone) with
    | true =>
      have hclosed : (!familyScoped && decide (empty = .matchAny)) = false := by
        cases familyScoped
        · cases empty
          · cases hopen
          · rfl
        · rfl
      rw [if_pos rfl, Bool.and_assoc, hclosed, Bool.and_false, if_neg Bool.false_ne_true]
      exact standsFor_fromV3Literals _
    | false =>
      have hlegacy : (!familyScoped && decide (empty = .matchAny)) = true := by
        cases familyScoped
        · cases empty
          · rfl
          · cases hopen
        · cases hopen
      rw [if_neg Bool.false_ne_true, Bool.and_assoc, hlegacy, Bool.and_true]
      by_cases hne : tokens.filterMap net = []
      · rw [hne]
        exact standsFor_matchAny
      · rw [fromPrefixes_eq hne, if_neg (by rw [List.isEmpty_iff]; exact hne)]
        exact standsFor_fromV3Literals _

end Literals

section Tokens

variable (addrs : AddrParsers)

/-- A word that stands for every IPv4 address. -/
def isAnyV4 (tok : String) : Bool :=
  match classifyAddrToken addrs tok with
  | .any | .anyV4 => true
  | _ => false

/-- A word that stands for every IPv6 address. -/
def isAnyV6 (tok : String) : Bool :=
  match classifyAddrToken addrs tok with
  | .any | .anyV6 => true
  | _ => false

/-- An IPv4 network or address. -/
def netV4 (tok : String) : Option (Prefix 32) :=
  match classifyAddrToken addrs tok with
  | .ipNet (.v4 addr len h) => some (Prefix.fromNet addr len h)
  | _ => none

/-- An IPv6 network or address. -/
def netV6 (tok : String) : Option (Prefix 128) :=
  match classifyAddrToken addrs tok with
  | .ipNet (.v6 addr len h) => some (Prefix.fromNet addr len h)
  | _ => none

/-- What the loop over the tokens collects. -/
theorem literalTokens_fields (tokens : List String) :
    (literalTokens addrs tokens).anyV4 = tokens.any (isAnyV4 addrs)
      ∧ (literalTokens addrs tokens).anyV6 = tokens.any (isAnyV6 addrs)
      ∧ (literalTokens addrs tokens).v4 = tokens.filterMap (netV4 addrs)
      ∧ (literalTokens addrs tokens).v6 = tokens.filterMap (netV6 addrs) := by
  induction tokens using List.reverseRecOn with
  | nil => exact ⟨rfl, rfl, rfl, rfl⟩
  | append_singleton tokens tok ih =>
    obtain ⟨h1, h2, h3, h4⟩ := ih
    have hstep : literalTokens addrs (tokens ++ [tok]) = (literalTokens addrs tokens).add addrs tok := by
      rw [literalTokens, List.foldl_append]
      rfl
    rw [hstep, LiteralTokens.add]
    simp only [List.any_append, List.filterMap_append, List.any_cons, List.any_nil, List.filterMap_cons,
      List.filterMap_nil, isAnyV4, isAnyV6, netV4, netV6] at h1 h2 h3 h4 ⊢
    cases classifyAddrToken addrs tok with
    | any => simp [h1, h2, h3, h4]
    | anyV4 => simp [h1, h2, h3, h4]
    | anyV6 => simp [h1, h2, h3, h4]
    | malformed => simp [h1, h2, h3, h4]
    | ipNet net => cases net <;> simp [h1, h2, h3, h4]

/-- The IPv4 prefixes a list of address texts stands for. -/
def literalPartV4 (tokens : List String) (empty : EmptyMeans) : List (Prefix 32) :=
  effective (tokens.any (isAnyV4 addrs) || tokens.any (isAnyV6 addrs)) empty
    (tokens.filterMap (tokenPrefix (isAnyV4 addrs) (netV4 addrs)))

/-- The IPv6 prefixes a list of address texts stands for. -/
def literalPartV6 (tokens : List String) (empty : EmptyMeans) : List (Prefix 128) :=
  effective (tokens.any (isAnyV4 addrs) || tokens.any (isAnyV6 addrs)) empty
    (tokens.filterMap (tokenPrefix (isAnyV6 addrs) (netV6 addrs)))

theorem standsFor_buildLiteralSide (tokens : List String) (empty : EmptyMeans) :
    StandsFor (buildLiteralSide addrs tokens empty).1 (literalPartV4 addrs tokens empty)
      ∧ StandsFor (buildLiteralSide addrs tokens empty).2.1 (literalPartV6 addrs tokens empty) := by
  obtain ⟨h1, h2, h3, h4⟩ := literalTokens_fields addrs tokens
  simp only [buildLiteralSide, h1, h2, h3, h4]
  constructor
  · exact standsFor_literalSet tokens empty fun h => by rw [h, Bool.true_or]
  · exact standsFor_literalSet tokens empty fun h => by rw [h, Bool.or_true]

end Tokens

/-! ## Address books -/

/-- The step of a computation that succeeds. -/
theorem ok_of_bind {ε α β : Type} {x : Except ε α} {f : α → Except ε β} {b : β} (h : x >>= f = .ok b) :
    ∃ a, x = .ok a ∧ f a = .ok b := by
  cases x with
  | error e => cases h
  | ok a => exact ⟨a, rfl, h⟩

theorem mapM_ok {ε α β : Type} {f : α → Except ε β} : ∀ {l : List α} {r : List β},
    l.mapM f = .ok r → List.Forall₂ (fun a b => f a = .ok b) l r
  | [], r, h => by
    obtain rfl := Except.ok.inj h
    exact .nil
  | a :: l, r, h => by
    rw [List.mapM_cons] at h
    obtain ⟨b, hb, h⟩ := ok_of_bind h
    obtain ⟨bs, hbs, h⟩ := ok_of_bind h
    obtain rfl := Except.ok.inj h
    exact .cons hb (mapM_ok hbs)

/-- Related lists have related elements at each place. -/
theorem forall₂_getElem? {α β : Type} {R : α → β → Prop} {l : List α} {r : List β} (h : List.Forall₂ R l r) :
    ∀ {i : ℕ} {a : α}, l[i]? = some a → ∃ b, r[i]? = some b ∧ R a b := by
  induction h with
  | nil =>
    intro i a ha
    cases ha
  | @cons a b l r hab _ ih =>
    intro i a' ha
    cases i with
    | zero =>
      obtain rfl := Option.some.inj ha
      exact ⟨b, rfl, hab⟩
    | succ i => exact ih ha

theorem exists_of_forall₂ {α β : Type} {R : α → β → Prop} {l : List α} {r : List β}
    (h : List.Forall₂ R l r) {a : α} (ha : a ∈ l) : ∃ b ∈ r, R a b := by
  obtain ⟨i, hi⟩ := List.mem_iff_getElem?.mp ha
  obtain ⟨b, hb, hab⟩ := forall₂_getElem? h hi
  exact ⟨b, List.mem_of_getElem? hb, hab⟩

section Books

variable (addrs : AddrParsers)

/-- The IPv4 prefixes of a book. -/
def bookV4 (snap : AddressBookSnapshot) : List (Prefix 32) :=
  snap.prefixesV4.filterMap (bookPrefixV4 addrs)

/-- The IPv6 prefixes of a book. -/
def bookV6 (snap : AddressBookSnapshot) : List (Prefix 128) :=
  snap.prefixesV6.filterMap (bookPrefixV6 addrs)

theorem bookPrefixes_ok {snap : AddressBookSnapshot} {family : String} {parse : String → Option (Prefix w)}
    {tokens : List String} {r : List (Prefix w)} (h : bookPrefixes snap family parse tokens = .ok r) :
    r = tokens.filterMap parse := by
  have hall := mapM_ok h
  clear h
  induction hall with
  | nil => rfl
  | @cons tok p tokens r hp _ ih =>
    cases hparse : parse tok with
    | none =>
      rw [hparse] at hp
      cases hp
    | some p' =>
      rw [hparse] at hp
      obtain rfl := Except.ok.inj hp
      rw [List.filterMap_cons_some hparse, ← ih]

theorem bookSet_ok {snap : AddressBookSnapshot} {family : String} {prefixes : List (Prefix w)}
    {s : PrefixSet w} (h : bookSet snap family prefixes = .ok s) : StandsFor s prefixes := by
  rw [bookSet] at h
  cases hbuild : tryFromV3Literals prefixes with
  | error e =>
    rw [hbuild] at h
    cases h
  | ok s' =>
    rw [hbuild] at h
    obtain rfl := Except.ok.inj h
    exact standsFor_of_ok hbuild

/-- The entry stands for the prefixes of the book. -/
structure BookOf (snap : AddressBookSnapshot) (entry : BookEntry) : Prop where
  v4 : StandsFor entry.v4 (bookV4 addrs snap)
  v6 : StandsFor entry.v6 (bookV6 addrs snap)

theorem addBook_ok {acc acc' : List BookEntry × Table UInt32 ℕ} {snap : AddressBookSnapshot}
    (h : addBook addrs acc snap = .ok acc') :
    acc.2.lookup snap.id = none ∧ ∃ entry, BookOf addrs snap entry
      ∧ acc' = (acc.1 ++ [entry], acc.2.insert snap.id acc.1.length) := by
  rw [addBook] at h
  split_ifs at h with hzero hseen
  obtain ⟨p4, hp4, h⟩ := ok_of_bind h
  obtain ⟨p6, hp6, h⟩ := ok_of_bind h
  obtain ⟨s4, hs4, h⟩ := ok_of_bind h
  obtain ⟨s6, hs6, h⟩ := ok_of_bind h
  obtain rfl := Except.ok.inj h
  obtain rfl := bookPrefixes_ok hp4
  obtain rfl := bookPrefixes_ok hp6
  rw [Option.not_isSome_iff_eq_none] at hseen
  exact ⟨hseen, ⟨s4, s6⟩, ⟨bookSet_ok hs4, bookSet_ok hs6⟩, rfl⟩

/-- The entries are those of the books in their order, and the table finds each by its id. -/
structure BooksOf (snaps : List AddressBookSnapshot) (acc : List BookEntry × Table UInt32 ℕ) : Prop where
  entries : List.Forall₂ (BookOf addrs) snaps acc.1
  index : ∀ id i, acc.2.lookup id = some i ↔ ∃ snap, snaps[i]? = some snap ∧ snap.id = id

variable {addrs}

theorem BooksOf.add {snaps : List AddressBookSnapshot} {acc acc' : List BookEntry × Table UInt32 ℕ}
    {snap : AddressBookSnapshot} (h : BooksOf addrs snaps acc) (hadd : addBook addrs acc snap = .ok acc') :
    BooksOf addrs (snaps ++ [snap]) acc' := by
  obtain ⟨hnew, entry, hentry, rfl⟩ := addBook_ok addrs hadd
  have hlen := h.entries.length_eq
  refine ⟨List.rel_append h.entries (.cons hentry .nil), fun id i => ?_⟩
  rw [List.getElem?_append]
  dsimp only
  rcases eq_or_ne id snap.id with rfl | hne
  · -- no earlier book has the new id
    rw [AList.lookup_insert, Option.some.injEq]
    constructor
    · rintro rfl
      exact ⟨snap, by rw [if_neg (by omega), hlen]; simp, rfl⟩
    · rintro ⟨other, hother, hid⟩
      split_ifs at hother with hlt
      · rw [(h.index snap.id i).mpr ⟨other, hother, hid⟩] at hnew
        cases hnew
      · have : i - snaps.length = 0 := by
          by_contra hpos
          rw [List.getElem?_eq_none (by simp; omega)] at hother
          cases hother
        omega
  · rw [AList.lookup_insert_ne hne, h.index]
    refine exists_congr fun other => and_congr_left fun hid => ?_
    split_ifs with hlt
    · rfl
    · rw [List.getElem?_eq_none (by omega)]
      constructor
      · intro hother
        cases hother
      · intro hother
        have hmem := List.mem_of_getElem? hother
        rw [List.mem_singleton] at hmem
        exact absurd (hid ▸ hmem ▸ rfl) hne

theorem BooksOf.foldlM : ∀ {todo done : List AddressBookSnapshot} {acc acc' : List BookEntry × Table UInt32 ℕ},
    BooksOf addrs done acc → todo.foldlM (addBook addrs) acc = .ok acc' →
      BooksOf addrs (done ++ todo) acc'
  | [], done, acc, acc', h, hfold => by
    obtain rfl := Except.ok.inj hfold
    rwa [List.append_nil]
  | snap :: todo, done, acc, acc', h, hfold => by
    rw [List.foldlM_cons] at hfold
    obtain ⟨mid, hadd, hfold⟩ := ok_of_bind hfold
    have := (h.add hadd).foldlM hfold
    rwa [List.append_assoc] at this

theorem BooksOf.of_parse {snaps : List AddressBookSnapshot} {acc : List BookEntry × Table UInt32 ℕ}
    (h : snaps.foldlM (addBook addrs) ([], ∅) = .ok acc) : BooksOf addrs snaps acc := by
  have hempty : BooksOf addrs [] (([], ∅) : List BookEntry × Table UInt32 ℕ) :=
    ⟨.nil, fun id i => by simp⟩
  exact hempty.foldlM h

section Resolved

variable {snaps : List AddressBookSnapshot} {acc : List BookEntry × Table UInt32 ℕ} {ids : List UInt32}
  {ruleId : String} {idxs : List ℕ}

/-- A looked-up book is in the table. -/
theorem lookup_of_ok {table : Table UInt32 ℕ} {id : UInt32} {i : ℕ}
    (h : (match table.lookup id with
      | some idx => (.ok idx : Except SnapshotIntegrityError ℕ)
      | none => .error (.unknownAddressBookId ruleId id)) = .ok i) : table.lookup id = some i := by
  cases hid : table.lookup id with
  | none =>
    rw [hid] at h
    cases h
  | some idx =>
    rw [hid] at h
    rw [Except.ok.inj h]

theorem resolveBookIdxs_ok {table : Table UInt32 ℕ} (h : resolveBookIdxs table ids ruleId = .ok idxs) :
    (∀ i ∈ idxs, ∃ id ∈ ids, table.lookup id = some i)
      ∧ ∀ id ∈ ids, ∃ i ∈ idxs, table.lookup id = some i := by
  have hall := mapM_ok h
  have hmem : ∀ id, id ∈ (ids.insertionSort (· ≤ ·)).dedup ↔ id ∈ ids := by
    intro id
    rw [List.mem_dedup, List.mem_insertionSort]
  constructor
  · intro i hi
    obtain ⟨id, hid, hok⟩ := exists_of_forall₂ (List.Forall₂.flip hall) hi
    exact ⟨id, (hmem id).mp hid, lookup_of_ok hok⟩
  · intro id hid
    obtain ⟨i, hi, hok⟩ := exists_of_forall₂ hall ((hmem id).mpr hid)
    exact ⟨i, hi, lookup_of_ok hok⟩

/-- The entries a side looks at are those of the books whose ids it lists. -/
theorem BooksOf.resolved (h : BooksOf addrs snaps acc) (hidxs : resolveBookIdxs acc.2 ids ruleId = .ok idxs) :
    (∀ entry ∈ idxs.filterMap (fun i => acc.1[i]?), ∃ snap ∈ snaps.filter (fun b => ids.contains b.id),
        BookOf addrs snap entry)
      ∧ ∀ snap ∈ snaps.filter (fun b => ids.contains b.id),
        ∃ entry ∈ idxs.filterMap (fun i => acc.1[i]?), BookOf addrs snap entry := by
  obtain ⟨hto, hfrom⟩ := resolveBookIdxs_ok hidxs
  constructor
  · intro entry hentry
    obtain ⟨i, hi, hget⟩ := List.mem_filterMap.mp hentry
    obtain ⟨id, hid, hlookup⟩ := hto i hi
    obtain ⟨snap, hsnap, rfl⟩ := (h.index id i).mp hlookup
    obtain ⟨entry', hentry', hbook⟩ := forall₂_getElem? h.entries hsnap
    obtain rfl : entry' = entry := Option.some.inj (hentry'.symm.trans hget)
    refine ⟨snap, List.mem_filter.mpr ⟨List.mem_of_getElem? hsnap, ?_⟩, hbook⟩
    exact List.contains_iff_mem.mpr hid
  · intro snap hsnap
    obtain ⟨hmem, hid⟩ := List.mem_filter.mp hsnap
    obtain ⟨i, hi, hlookup⟩ := hfrom snap.id (List.contains_iff_mem.mp hid)
    obtain ⟨j, hj⟩ := List.mem_iff_getElem?.mp hmem
    -- the table has the place of this very book
    obtain rfl : j = i :=
      Option.some.inj (((h.index snap.id j).mpr ⟨snap, hj, rfl⟩).symm.trans hlookup)
    obtain ⟨entry, hentry, hbook⟩ := forall₂_getElem? h.entries hj
    exact ⟨entry, List.mem_filterMap.mpr ⟨j, hi, hentry⟩, hbook⟩

end Resolved

end Books

/-! ## One side of a rule -/

/-- The literal and the books of a side stand for the union of the prefixes. -/
structure UnionOf (literal : PrefixSet w) (books : List (PrefixSet w)) (prefixes : List (Prefix w)) :
    Prop where
  contains_iff : ∀ ip, (literal.contains ip || books.any fun b => b.contains ip) = true
    ↔ ∃ p ∈ prefixes, p.Covers ip
  none_iff : (isMatchNone literal && books.all isMatchNone) = true ↔ prefixes = []

theorem unionOf_append {β : Type} {literal : PrefixSet w} {books : List (PrefixSet w)} {own : List (Prefix w)}
    {listed : List β} {prefixes : β → List (Prefix w)} (hliteral : StandsFor literal own)
    (hto : ∀ b ∈ books, ∃ x ∈ listed, StandsFor b (prefixes x))
    (hfrom : ∀ x ∈ listed, ∃ b ∈ books, StandsFor b (prefixes x)) :
    UnionOf literal books (own ++ listed.flatMap prefixes) := by
  constructor
  · intro ip
    rw [Bool.or_eq_true, hliteral.contains_iff, List.any_eq_true]
    simp only [List.mem_append, List.mem_flatMap]
    constructor
    · rintro (⟨p, hp, hcovers⟩ | ⟨b, hb, hcontains⟩)
      · exact ⟨p, .inl hp, hcovers⟩
      · obtain ⟨x, hx, hstands⟩ := hto b hb
        obtain ⟨p, hp, hcovers⟩ := (hstands.contains_iff ip).mp hcontains
        exact ⟨p, .inr ⟨x, hx, hp⟩, hcovers⟩
    · rintro ⟨p, hp | ⟨x, hx, hp⟩, hcovers⟩
      · exact .inl ⟨p, hp, hcovers⟩
      · obtain ⟨b, hb, hstands⟩ := hfrom x hx
        exact .inr ⟨b, hb, (hstands.contains_iff ip).mpr ⟨p, hp, hcovers⟩⟩
  · rw [Bool.and_eq_true, hliteral.none_iff, List.all_eq_true, List.append_eq_nil_iff,
      List.flatMap_eq_nil_iff]
    refine and_congr_right fun _ => ⟨fun h x hx => ?_, fun h b hb => ?_⟩
    · obtain ⟨b, hb, hstands⟩ := hfrom x hx
      exact hstands.none_iff.mp (h b hb)
    · obtain ⟨x, hx, hstands⟩ := hto b hb
      exact hstands.none_iff.mpr (h x hx)

theorem unionOf_matchAny : UnionOf (w := w) .matchAny [] [everyAddress w] := by
  have h := standsFor_matchAny (w := w)
  refine ⟨fun ip => ?_, ?_⟩
  · rw [List.any_nil, Bool.or_false]
    exact h.contains_iff ip
  · rw [List.all_nil, Bool.and_true]
    exact h.none_iff

section Flags

variable {literal : PrefixSet w} {books : List (PrefixSet w)} {prefixes : List (Prefix w)}

theorem UnionOf.familyEmpty_eq (h : UnionOf literal books prefixes) :
    familyEmpty literal books = prefixes.isEmpty := by
  rw [Bool.eq_iff_iff, List.isEmpty_iff, ← h.none_iff, familyEmpty, Bool.and_assoc, Bool.and_eq_true]
  refine ⟨fun hempty => hempty.2, fun hnone => ⟨?_, hnone⟩⟩
  -- a set that matches nothing does not match everything
  have hdisjoint : ∀ s : PrefixSet w, isMatchNone s = true → isMatchAny s = false := by
    intro s hs
    rw [isMatchNone, decide_eq_true_eq] at hs
    subst hs
    simp [isMatchAny]
  rw [Bool.and_eq_true, List.all_eq_true] at hnone
  rw [Bool.not_eq_true', familyMatchAny, hdisjoint _ hnone.1, Bool.false_or, List.any_eq_false]
  intro b hb
  rw [hdisjoint b (hnone.2 b hb)]
  exact Bool.false_ne_true

theorem isMatchAny_contains {s : PrefixSet w} (h : isMatchAny s = true) (ip : BitVec w) :
    s.contains ip = true := by
  rw [isMatchAny, decide_eq_true_eq] at h
  subst h
  rfl

/-- One of the prefixes holds the address. -/
def covered (prefixes : List (Prefix w)) (ip : BitVec w) : Bool := prefixes.any fun p => p.contains ip

theorem UnionOf.contains_eq (h : UnionOf literal books prefixes) (ip : BitVec w) :
    (literal.contains ip || books.any fun b => b.contains ip) = covered prefixes ip := by
  rw [Bool.eq_iff_iff, h.contains_iff, covered, List.any_eq_true]
  simp only [contains_iff_covers]

theorem UnionOf.matches_eq (h : UnionOf literal books prefixes) (ip : BitVec w) :
    (familyMatchAny literal books || literal.contains ip || books.any fun b => b.contains ip)
      = covered prefixes ip := by
  rw [Bool.or_assoc, h.contains_eq]
  cases hany : familyMatchAny literal books with
  | false => rfl
  | true =>
    rw [Bool.true_or, ← h.contains_eq]
    rw [familyMatchAny, Bool.or_eq_true, List.any_eq_true] at hany
    rcases hany with hliteral | ⟨b, hb, hbook⟩
    · rw [isMatchAny_contains hliteral, Bool.true_or]
    · rw [List.any_eq_true.mpr ⟨b, hb, isMatchAny_contains hbook ip⟩, Bool.or_true]

end Flags

/-- What a side asks of an address: to be in the union, or, for an excluded side that is not
empty in both families, not to be. -/
def sideHolds (excluded : Bool) (v4 : List (Prefix 32)) (v6 : List (Prefix 128)) (family : List (Prefix w))
    (ip : BitVec w) : Bool :=
  if excluded then !(v4.isEmpty && v6.isEmpty) && !covered family ip else covered family ip

section Side

variable {literalV4 : PrefixSet 32} {booksV4 : List (PrefixSet 32)} {v4 : List (Prefix 32)}
  {literalV6 : PrefixSet 128} {booksV6 : List (PrefixSet 128)} {v6 : List (Prefix 128)}

/-- **One side.** The sets and the flags of the parser decide membership in the union. -/
theorem sideMatches_eq {literal : PrefixSet w} {books : List (PrefixSet w)} {family : List (Prefix w)}
    (h4 : UnionOf literalV4 booksV4 v4) (h6 : UnionOf literalV6 booksV6 v6)
    (h : UnionOf literal books family) (excluded : Bool) (ip : BitVec w) :
    sideMatches excluded (familyEmpty literalV4 booksV4) (familyEmpty literalV6 booksV6)
      (familyMatchAny literal books) literal books ip = sideHolds excluded v4 v6 family ip := by
  rw [sideMatches, sideHolds, h4.familyEmpty_eq, h6.familyEmpty_eq, h.contains_eq, h.matches_eq]

end Side

end Xpf.Policies
