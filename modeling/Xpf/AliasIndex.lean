/-
Records under handles, with an index from the aliases of a record to its handle.

A record may have several aliases and an alias belongs to one record at most. The index is
exact when it sends an alias to a handle just in case the record behind that handle has the
alias. Three changes keep it exact: to store a record under a free handle, none of whose
aliases is taken; to rewrite a record without changing its aliases; and to forget a record
together with its aliases.
-/
import Xpf.Tables

set_option autoImplicit false

namespace Xpf.Aliases

open Xpf.Tables

variable {κ η ρ : Type} [DecidableEq κ] [DecidableEq η]

/-- Every alias of the list goes to the handle. -/
def indexAll (index : Table κ η) (keys : List κ) (handle : η) : Table κ η :=
  keys.foldl (fun t k => t.insert k handle) index

/-- No alias of the list goes anywhere. -/
def unindexAll (index : Table κ η) (keys : List κ) : Table κ η := keys.foldl (fun t k => t.erase k) index

/-- The index sends an alias to a handle just in case the record behind it has the alias. -/
def Exact (aliases : ρ → List κ) (index : Table κ η) (records : Table η ρ) : Prop :=
  ∀ k handle, index.lookup k = some handle ↔ ∃ r, records.lookup handle = some r ∧ k ∈ aliases r

theorem lookup_indexAll (index : Table κ η) (keys : List κ) (handle : η) (k : κ) :
    (indexAll index keys handle).lookup k = if k ∈ keys then some handle else index.lookup k := by
  induction keys generalizing index with
  | nil => rfl
  | cons a keys ih =>
    rw [indexAll, List.foldl_cons, ← indexAll, ih]
    by_cases hkeys : k ∈ keys
    · rw [if_pos hkeys, if_pos (List.mem_cons_of_mem _ hkeys)]
    · rw [if_neg hkeys]
      by_cases ha : k = a
      · rw [ha, AList.lookup_insert, if_pos List.mem_cons_self]
      · rw [AList.lookup_insert_ne ha, if_neg fun hmem => (List.mem_cons.mp hmem).elim ha hkeys]

theorem lookup_unindexAll (index : Table κ η) (keys : List κ) (k : κ) :
    (unindexAll index keys).lookup k = if k ∈ keys then none else index.lookup k := by
  induction keys generalizing index with
  | nil => rfl
  | cons a keys ih =>
    rw [unindexAll, List.foldl_cons, ← unindexAll, ih]
    by_cases hkeys : k ∈ keys
    · rw [if_pos hkeys, if_pos (List.mem_cons_of_mem _ hkeys)]
    · rw [if_neg hkeys]
      by_cases ha : k = a
      · rw [ha, AList.lookup_erase, if_pos List.mem_cons_self]
      · rw [AList.lookup_erase_ne ha, if_neg fun hmem => (List.mem_cons.mp hmem).elim ha hkeys]

theorem exact_empty (aliases : ρ → List κ) : Exact aliases (∅ : Table κ η) (∅ : Table η ρ) := by
  intro k handle
  refine ⟨fun h => ?_, ?_⟩
  · cases h
  · rintro ⟨r, hr, -⟩
    cases hr

namespace Exact

variable {aliases : ρ → List κ} {index : Table κ η} {records : Table η ρ} {handle : η} {r : ρ}

/-- The aliases of a record lead to it. -/
theorem lookup_alias (h : Exact aliases index records) (hr : records.lookup handle = some r) {k : κ}
    (hk : k ∈ aliases r) : index.lookup k = some handle :=
  (h k handle).mpr ⟨r, hr, hk⟩

/-- An alias of two records is of one record. -/
theorem handle_unique (h : Exact aliases index records) {handle' : η} {r' : ρ}
    (hr : records.lookup handle = some r) (hr' : records.lookup handle' = some r') {k : κ} (hk : k ∈ aliases r)
    (hk' : k ∈ aliases r') : handle' = handle :=
  Option.some.inj ((h.lookup_alias hr' hk').symm.trans (h.lookup_alias hr hk))

theorem store (h : Exact aliases index records) (hfree : records.lookup handle = none)
    (huntaken : ∀ k ∈ aliases r, index.lookup k = none) :
    Exact aliases (indexAll index (aliases r) handle) (records.insert handle r) := by
  intro k handle'
  rw [lookup_indexAll]
  by_cases hk : k ∈ aliases r
  · rw [if_pos hk]
    refine ⟨?_, ?_⟩
    · intro heq
      cases heq
      exact ⟨r, AList.lookup_insert _, hk⟩
    · rintro ⟨r', hr', hk'⟩
      by_cases hsame : handle' = handle
      · rw [hsame]
      · -- another record with the alias would have it in the index already
        rw [AList.lookup_insert_ne hsame] at hr'
        have htaken := h.lookup_alias hr' hk'
        rw [huntaken k hk] at htaken
        cases htaken
  · rw [if_neg hk, h k handle']
    refine exists_congr fun r' => ?_
    by_cases hsame : handle' = handle
    · rw [hsame, hfree, AList.lookup_insert]
      refine ⟨fun hr' => absurd hr'.1 (Option.some_ne_none r').symm, ?_⟩
      rintro ⟨heq, hk'⟩
      cases heq
      exact absurd hk' hk
    · rw [AList.lookup_insert_ne hsame]

theorem rewrite (h : Exact aliases index records) {old : ρ} (hold : records.lookup handle = some old)
    (haliases : aliases r = aliases old) : Exact aliases index (records.insert handle r) := by
  intro k handle'
  rw [h k handle']
  by_cases hsame : handle' = handle
  · subst hsame
    rw [hold, AList.lookup_insert]
    refine ⟨?_, ?_⟩
    · rintro ⟨r', heq, hk⟩
      cases heq
      exact ⟨r, rfl, haliases ▸ hk⟩
    · rintro ⟨r', heq, hk⟩
      cases heq
      exact ⟨old, rfl, haliases ▸ hk⟩
  · rw [AList.lookup_insert_ne hsame]

theorem forget (h : Exact aliases index records) (hr : records.lookup handle = some r) :
    Exact aliases (unindexAll index (aliases r)) (records.erase handle) := by
  intro k handle'
  rw [lookup_unindexAll]
  by_cases hk : k ∈ aliases r
  · rw [if_pos hk]
    refine ⟨fun heq => absurd heq (Option.some_ne_none _).symm, ?_⟩
    rintro ⟨r', hr', hk'⟩
    by_cases hsame : handle' = handle
    · rw [hsame, AList.lookup_erase] at hr'
      cases hr'
    · rw [AList.lookup_erase_ne hsame] at hr'
      exact absurd (h.handle_unique hr hr' hk hk') hsame
  · rw [if_neg hk, h k handle']
    refine exists_congr fun r' => ?_
    by_cases hsame : handle' = handle
    · subst hsame
      rw [hr, AList.lookup_erase]
      refine ⟨?_, fun hr' => by cases hr'.1⟩
      rintro ⟨heq, hk'⟩
      cases heq
      exact absurd hk' hk
    · rw [AList.lookup_erase_ne hsame]

end Exact

end Xpf.Aliases
