/-
Records under handles, and the maps that find the handles again.

A slab hands out small numbers for the records it stores and takes them back: a freed
number is the next one to be handed out. Beside it stand maps from keys to buckets of
handles. A map is exact when a bucket holds a handle just in case the record behind that
handle derives the bucket's key; the rules below say which change of a map keeps it exact
when a record is stored, removed or rewritten. A tally counts the records that are charged
to a key and forgets a key that is down to zero.
-/
import Mathlib.Data.List.Nodup
import Mathlib.Logic.Function.Basic
import Mathlib.Tactic.Common

set_option autoImplicit false

namespace Xpf.Handles

/-! ## The slab -/

/-- Slots of records, with the vacant ones as a stack. -/
structure Slab (ρ : Type) where
  slots : List (Option ρ)
  free : List ℕ
  free_nodup : free.Nodup
  mem_free : ∀ h, h ∈ free ↔ slots[h]? = some none

namespace Slab

variable {ρ : Type}

def empty : Slab ρ := ⟨[], [], List.nodup_nil, by simp⟩

/-- The record behind a handle. -/
def get (s : Slab ρ) (h : ℕ) : Option ρ := s.slots[h]?.join

/-- The handle the next record is stored under. -/
def vacantKey (s : Slab ρ) : ℕ := s.free.headD s.slots.length

def insert (s : Slab ρ) (r : ρ) : Slab ρ :=
  match hf : s.free with
  | [] =>
    { slots := s.slots ++ [some r]
      free := []
      free_nodup := List.nodup_nil
      mem_free := by
        intro h
        have hold := s.mem_free h
        rw [hf] at hold
        simp only [List.not_mem_nil, false_iff] at hold ⊢
        rw [List.getElem?_append]
        split
        · exact hold
        · rw [List.getElem?_singleton]
          split <;> simp }
  | h₀ :: rest =>
    { slots := s.slots.set h₀ (some r)
      free := rest
      free_nodup := (List.nodup_cons.mp (hf ▸ s.free_nodup)).2
      mem_free := by
        intro h
        have hold := s.mem_free h
        have hnd := List.nodup_cons.mp (hf ▸ s.free_nodup)
        rw [hf] at hold
        rw [List.getElem?_set]
        by_cases heq : h₀ = h
        · subst heq
          rw [if_pos rfl]
          refine ⟨fun hmem => absurd hmem hnd.1, fun hsome => ?_⟩
          split at hsome <;> cases hsome
        · rw [if_neg heq, ← hold, List.mem_cons]
          refine ⟨fun hmem => Or.inr hmem, fun hmem => ?_⟩
          rcases hmem with hmem | hmem
          · exact absurd hmem.symm heq
          · exact hmem }

/-- Take the record behind `h` out; a vacant handle is left alone. -/
def remove (s : Slab ρ) (h : ℕ) : Slab ρ :=
  match hg : s.get h with
  | none => s
  | some r =>
    { slots := s.slots.set h none
      free := h :: s.free
      free_nodup := by
        refine List.nodup_cons.mpr ⟨fun hmem => ?_, s.free_nodup⟩
        have hvac := (s.mem_free h).mp hmem
        rw [get, hvac] at hg
        cases hg
      mem_free := by
        intro h'
        have hlt : h < s.slots.length := by
          by_contra hge
          rw [get, List.getElem?_eq_none (by omega)] at hg
          cases hg
        rw [List.getElem?_set, List.mem_cons]
        by_cases heq : h = h'
        · simp [heq ▸ hlt, heq]
        · rw [if_neg heq, s.mem_free h']
          exact ⟨fun hor => hor.resolve_left (Ne.symm heq), Or.inr⟩ }

/-- Rewrite the record behind `h`. -/
def update (s : Slab ρ) (h : ℕ) (f : ρ → ρ) : Slab ρ :=
  match hg : s.get h with
  | none => s
  | some r =>
    { slots := s.slots.set h (some (f r))
      free := s.free
      free_nodup := s.free_nodup
      mem_free := by
        intro h'
        rw [s.mem_free h', List.getElem?_set]
        by_cases heq : h = h'
        · subst heq
          rw [if_pos rfl]
          refine ⟨fun hvac => ?_, fun hsome => ?_⟩
          · rw [get, hvac] at hg
            cases hg
          · split at hsome <;> cases hsome
        · rw [if_neg heq] }

/-- How many records meet a condition. -/
def count (s : Slab ρ) (p : ρ → Bool) : ℕ := s.slots.countP fun o => o.any p

variable {s : Slab ρ} {h h' : ℕ} {r : ρ}

@[simp] theorem get_empty : (empty : Slab ρ).get h = none := by simp [get, empty]

@[simp] theorem count_empty (p : ρ → Bool) : (empty : Slab ρ).count p = 0 := rfl

theorem slot_of_get (hg : s.get h = some r) : s.slots[h]? = some (some r) := by
  rw [get] at hg
  exact Option.join_eq_some_iff.mp hg

theorem lt_length_of_get (hg : s.get h = some r) : h < s.slots.length :=
  (List.getElem?_eq_some_iff.mp (slot_of_get hg)).1

/-- The records behind handles are those in the slots. -/
theorem exists_get_iff : (∃ h, s.get h = some r) ↔ some r ∈ s.slots := by
  simp only [get, Option.join_eq_some_iff]
  exact List.mem_iff_getElem?.symm

/-- The handle of the next record is vacant. -/
@[simp] theorem get_vacantKey (s : Slab ρ) : s.get s.vacantKey = none := by
  rw [get, vacantKey]
  cases hf : s.free with
  | nil => simp
  | cons h₀ rest =>
    have hvac := (s.mem_free h₀).mp (by rw [hf]; exact List.mem_cons_self)
    rw [List.headD_cons, hvac]
    rfl

theorem get_insert (s : Slab ρ) (r : ρ) (h : ℕ) :
    (s.insert r).get h = if h = s.vacantKey then some r else s.get h := by
  unfold insert
  split
  · next hf =>
    have hkey : s.vacantKey = s.slots.length := by rw [vacantKey, hf]; rfl
    show (s.slots ++ [some r])[h]?.join = _
    rw [hkey, get, List.getElem?_append, List.getElem?_singleton]
    split
    · next hlt => rw [if_neg (by omega)]
    · next hge =>
      by_cases heq : h = s.slots.length
      · simp [heq]
      · rw [if_neg (by omega), if_neg heq, List.getElem?_eq_none (by omega)]
  · next h₀ rest hf =>
    have hvac := (s.mem_free h₀).mp (by rw [hf]; exact List.mem_cons_self)
    have hlt : h₀ < s.slots.length := (List.getElem?_eq_some_iff.mp hvac).1
    have hkey : s.vacantKey = h₀ := by rw [vacantKey, hf]; rfl
    show (s.slots.set h₀ (some r))[h]?.join = _
    rw [hkey, get, List.getElem?_set]
    by_cases heq : h₀ = h
    · simp [heq ▸ hlt, heq]
    · rw [if_neg heq, if_neg (Ne.symm heq)]

theorem get_remove (s : Slab ρ) (h h' : ℕ) :
    (s.remove h).get h' = if h' = h then none else s.get h' := by
  unfold remove
  split
  · next hg =>
    by_cases heq : h' = h
    · rw [if_pos heq, heq, hg]
    · rw [if_neg heq]
  · next r hg =>
    have hlt := lt_length_of_get hg
    show (s.slots.set h none)[h']?.join = _
    rw [get, List.getElem?_set]
    by_cases heq : h = h'
    · simp [heq ▸ hlt, heq]
    · rw [if_neg heq, if_neg (Ne.symm heq)]

theorem get_update (s : Slab ρ) (h : ℕ) (f : ρ → ρ) (h' : ℕ) :
    (s.update h f).get h' = if h' = h then (s.get h).map f else s.get h' := by
  unfold update
  split
  · next hg =>
    by_cases heq : h' = h
    · rw [if_pos heq, heq, hg]
      rfl
    · rw [if_neg heq]
  · next r hg =>
    have hlt := lt_length_of_get hg
    have hnew : (s.get h).map f = some (f r) := by rw [hg]; rfl
    show (s.slots.set h (some (f r)))[h']?.join = _
    rw [hnew, get, List.getElem?_set]
    by_cases heq : h = h'
    · simp [heq ▸ hlt, heq]
    · rw [if_neg heq, if_neg (Ne.symm heq)]

/-- Rewriting one slot trades what its old content counted for what the new one counts. -/
private theorem countP_set_slot {slots : List (Option ρ)} {o : Option ρ} (o' : Option ρ) (p : ρ → Bool)
    (hslot : slots[h]? = some o) :
    (slots.set h o').countP (fun o => o.any p) + (o.any p).toNat =
      slots.countP (fun o => o.any p) + (o'.any p).toNat := by
  obtain ⟨hlt, heq⟩ := List.getElem?_eq_some_iff.mp hslot
  have hset := List.countP_set (p := fun o : Option ρ => o.any p) (a := o') hlt
  have hle := List.boole_getElem_le_countP (p := fun o : Option ρ => o.any p) hlt
  rw [heq] at hset hle
  cases hold : o.any p <;> cases hnew : o'.any p <;> simp only [hold, hnew, if_true, if_false,
    Bool.toNat_true, Bool.toNat_false, Bool.false_eq_true] at hset hle ⊢ <;> omega

theorem count_insert (s : Slab ρ) (r : ρ) (p : ρ → Bool) :
    (s.insert r).count p = s.count p + (p r).toNat := by
  unfold insert
  split
  · rw [count, count, List.countP_append, List.countP_singleton]
    cases hp : p r <;> simp [hp]
  · next h₀ rest hf =>
    have hvac := (s.mem_free h₀).mp (by rw [hf]; exact List.mem_cons_self)
    simpa [count] using countP_set_slot (some r) p hvac

theorem count_remove (hg : s.get h = some r) (p : ρ → Bool) :
    (s.remove h).count p + (p r).toNat = s.count p := by
  unfold remove
  split
  · next hnone => rw [hnone] at hg; cases hg
  · next r' hsome =>
    obtain rfl : r' = r := by rw [hsome] at hg; exact Option.some.inj hg
    simpa [count] using countP_set_slot none p (slot_of_get hg)

theorem count_update (hg : s.get h = some r) (f : ρ → ρ) (p : ρ → Bool) :
    (s.update h f).count p + (p r).toNat = s.count p + (p (f r)).toNat := by
  unfold update
  split
  · next hnone => rw [hnone] at hg; cases hg
  · next r' hsome =>
    obtain rfl : r' = r := by rw [hsome] at hg; exact Option.some.inj hg
    simpa [count] using countP_set_slot (some (f r')) p (slot_of_get hg)

end Slab

/-! ## Buckets of handles -/

/-- A map from keys to buckets of handles. A bucket holds a handle once, and a bucket that
becomes empty leaves the map. -/
structure HandleIndex (κ : Type) where
  buckets : κ → Option (List ℕ)
  nodup : ∀ k l, buckets k = some l → l.Nodup
  nonempty : ∀ k l, buckets k = some l → l ≠ []

namespace HandleIndex

variable {κ : Type}

def empty : HandleIndex κ := ⟨fun _ => none, by simp, by simp⟩

/-- The handles under a key. -/
def members (ix : HandleIndex κ) (k : κ) : List ℕ := (ix.buckets k).getD []

theorem members_nodup (ix : HandleIndex κ) (k : κ) : (ix.members k).Nodup := by
  rw [members]
  cases hb : ix.buckets k with
  | none => exact List.nodup_nil
  | some l => exact ix.nodup k l hb

@[simp] theorem members_empty {k : κ} : (empty : HandleIndex κ).members k = [] := rfl

variable [DecidableEq κ]

/-- Add a handle to a key's bucket unless it is there. -/
def push (ix : HandleIndex κ) (k : κ) (h : ℕ) : HandleIndex κ :=
  if hmem : h ∈ ix.members k then ix
  else
    { buckets := Function.update ix.buckets k (some (ix.members k ++ [h]))
      nodup := by
        intro k' l hl
        by_cases heq : k' = k
        · subst heq
          rw [Function.update_self] at hl
          obtain rfl := Option.some.inj hl
          refine List.nodup_append.mpr ⟨ix.members_nodup k', List.nodup_singleton h, ?_⟩
          intro a ha b hb hab
          rw [List.mem_singleton] at hb
          rw [hab, hb] at ha
          exact hmem ha
        · rw [Function.update_of_ne heq] at hl
          exact ix.nodup k' l hl
      nonempty := by
        intro k' l hl
        by_cases heq : k' = k
        · subst heq
          rw [Function.update_self] at hl
          obtain rfl := Option.some.inj hl
          simp
        · rw [Function.update_of_ne heq] at hl
          exact ix.nonempty k' l hl }

/-- Drop a handle from a key's bucket, and the bucket with its last handle. -/
def remove (ix : HandleIndex κ) (k : κ) (h : ℕ) : HandleIndex κ where
  buckets := Function.update ix.buckets k
    ((ix.buckets k).bind fun l =>
      if l.filter (· ≠ h) = [] then none else some (l.filter (· ≠ h)))
  nodup := by
    intro k' l hl
    by_cases heq : k' = k
    · subst heq
      rw [Function.update_self, Option.bind_eq_some_iff] at hl
      obtain ⟨old, hold, hl⟩ := hl
      split at hl
      · cases hl
      · obtain rfl := Option.some.inj hl
        exact (ix.nodup k' old hold).filter _
    · rw [Function.update_of_ne heq] at hl
      exact ix.nodup k' l hl
  nonempty := by
    intro k' l hl
    by_cases heq : k' = k
    · subst heq
      rw [Function.update_self, Option.bind_eq_some_iff] at hl
      obtain ⟨old, hold, hl⟩ := hl
      split at hl
      · cases hl
      · next hne => exact Option.some.inj hl ▸ hne
    · rw [Function.update_of_ne heq] at hl
      exact ix.nonempty k' l hl

variable {ix : HandleIndex κ} {k k' : κ} {h h' : ℕ}

theorem mem_push : h' ∈ (ix.push k h).members k' ↔ h' ∈ ix.members k' ∨ (k' = k ∧ h' = h) := by
  unfold push
  split
  · next hmem =>
    refine ⟨Or.inl, fun hor => hor.elim id ?_⟩
    rintro ⟨rfl, rfl⟩
    exact hmem
  · by_cases heq : k' = k
    · subst heq
      simp [members]
    · simp [members, heq]

theorem mem_remove : h' ∈ (ix.remove k h).members k' ↔ h' ∈ ix.members k' ∧ ¬(k' = k ∧ h' = h) := by
  by_cases heq : k' = k
  · subst heq
    simp only [members, remove, Function.update_self]
    cases hb : ix.buckets k' with
    | none => simp
    | some l =>
      rw [Option.bind_some, Option.getD_some]
      split
      · next hnil =>
        simp only [Option.getD_none, List.not_mem_nil, true_and, false_iff, not_and, not_not]
        intro hmem
        by_contra hne
        exact List.ne_nil_of_mem (List.mem_filter.mpr ⟨hmem, by simpa using hne⟩) hnil
      · simp [List.mem_filter]
  · simp [members, remove, heq]

variable {ι : Type} {f : ι → κ}

/-- Adding a handle under several keys. -/
theorem mem_foldl_push (l : List ι) :
    h' ∈ (l.foldl (fun ix a => ix.push (f a) h) ix).members k ↔
      h' ∈ ix.members k ∨ (h' = h ∧ ∃ a ∈ l, k = f a) := by
  induction l generalizing ix with
  | nil => simp
  | cons a l ih =>
    rw [List.foldl_cons, ih, mem_push]
    simp only [List.mem_cons, exists_eq_or_imp]
    tauto

/-- Dropping a handle from several keys. -/
theorem mem_foldl_remove (l : List ι) :
    h' ∈ (l.foldl (fun ix a => ix.remove (f a) h) ix).members k ↔
      h' ∈ ix.members k ∧ ¬(h' = h ∧ ∃ a ∈ l, k = f a) := by
  induction l generalizing ix with
  | nil => simp
  | cons a l ih =>
    rw [List.foldl_cons, ih, mem_remove]
    simp only [List.mem_cons, exists_eq_or_imp]
    by_cases heq : h' = h
    · simp [heq, not_or, and_assoc]
    · simp [heq]

end HandleIndex

/-! ## Exact maps -/

namespace HandleIndex

variable {κ : Type} {ix : HandleIndex κ} {h : ℕ}
variable {ρ : Type} {s : Slab ρ} {D : ρ → κ → Prop} {r : ρ}

/-- Each bucket holds exactly the handles of the records that derive its key. -/
def Exact (ix : HandleIndex κ) (s : Slab ρ) (D : ρ → κ → Prop) : Prop :=
  ∀ k h, h ∈ ix.members k ↔ ∃ r, s.get h = some r ∧ D r k

theorem exact_empty : (empty : HandleIndex κ).Exact Slab.empty D := by
  intro k h
  simp

/-- Storing a record: its keys gain its handle. -/
theorem Exact.insert {ix' : HandleIndex κ} (hix : ix.Exact s D)
    (hpush : ∀ k h, h ∈ ix'.members k ↔ h ∈ ix.members k ∨ (h = s.vacantKey ∧ D r k)) :
    ix'.Exact (s.insert r) D := by
  intro k h
  rw [hpush, hix k h, Slab.get_insert]
  by_cases heq : h = s.vacantKey
  · subst heq
    simp
  · simp [heq]

/-- Removing a record: its keys lose its handle, no key gains it, and no other handle moves. -/
theorem Exact.remove {ix' : HandleIndex κ} (hix : ix.Exact s D) (hg : s.get h = some r)
    (hgone : ∀ k, D r k → h ∉ ix'.members k) (hsub : ∀ k, h ∈ ix'.members k → h ∈ ix.members k)
    (hoff : ∀ k h', h' ≠ h → (h' ∈ ix'.members k ↔ h' ∈ ix.members k)) :
    ix'.Exact (s.remove h) D := by
  intro k h'
  rw [Slab.get_remove]
  by_cases heq : h' = h
  · subst heq
    rw [if_pos rfl]
    constructor
    · intro hmem
      obtain ⟨r', hr', hd⟩ := (hix k h').mp (hsub k hmem)
      rw [hg] at hr'
      obtain rfl := Option.some.inj hr'
      exact absurd hmem (hgone k hd)
    · rintro ⟨r', hr', -⟩
      cases hr'
  · rw [if_neg heq, hoff k h' heq, hix k h']

/-- Rewriting a record: its handle stands under the keys of the new record, and no other
handle moves. -/
theorem Exact.update {ix' : HandleIndex κ} {f : ρ → ρ} (hix : ix.Exact s D) (hg : s.get h = some r)
    (hat : ∀ k, h ∈ ix'.members k ↔ D (f r) k)
    (hoff : ∀ k h', h' ≠ h → (h' ∈ ix'.members k ↔ h' ∈ ix.members k)) :
    ix'.Exact (s.update h f) D := by
  intro k h'
  rw [Slab.get_update]
  by_cases heq : h' = h
  · subst heq
    rw [if_pos rfl, hg, hat]
    simp
  · rw [if_neg heq, hoff k h' heq, hix k h']

end HandleIndex

/-! ## Tallies -/

/-- Counts by key, without the keys that are down to zero. -/
structure Tally (κ : Type) where
  counts : κ → Option ℕ
  pos : ∀ k n, counts k = some n → 0 < n

namespace Tally

variable {κ : Type}

def empty : Tally κ := ⟨fun _ => none, by simp⟩

def get (t : Tally κ) (k : κ) : ℕ := (t.counts k).getD 0

@[simp] theorem get_empty {k : κ} : (empty : Tally κ).get k = 0 := rfl

variable [DecidableEq κ]

def inc (t : Tally κ) (k : κ) : Tally κ where
  counts := Function.update t.counts k (some (t.get k + 1))
  pos := by
    intro k' n hn
    by_cases heq : k' = k
    · subst heq
      rw [Function.update_self] at hn
      have := Option.some.inj hn
      omega
    · rw [Function.update_of_ne heq] at hn
      exact t.pos k' n hn

/-- One less, and the key is forgotten at zero; a key that is not there stays away. -/
def dec (t : Tally κ) (k : κ) : Tally κ where
  counts := Function.update t.counts k
    ((t.counts k).bind fun n => if n - 1 = 0 then none else some (n - 1))
  pos := by
    intro k' n hn
    by_cases heq : k' = k
    · subst heq
      rw [Function.update_self, Option.bind_eq_some_iff] at hn
      obtain ⟨m, hm, hn⟩ := hn
      split at hn
      · cases hn
      · have := Option.some.inj hn
        omega
    · rw [Function.update_of_ne heq] at hn
      exact t.pos k' n hn

variable {t : Tally κ} {k k' : κ}

theorem get_inc : (t.inc k).get k' = t.get k' + (decide (k = k')).toNat := by
  by_cases heq : k = k'
  · subst heq
    simp [get, inc]
  · simp [get, inc, heq, Ne.symm heq]

theorem get_dec : (t.dec k).get k' = t.get k' - (decide (k = k')).toNat := by
  by_cases heq : k = k'
  · subst heq
    simp only [get, dec, Function.update_self]
    cases hc : t.counts k with
    | none => simp
    | some n =>
      rw [Option.bind_some]
      split
      · next hz => simp only [Option.getD_none, Option.getD_some, decide_true, Bool.toNat_true]; omega
      · simp
  · simp [get, dec, heq, Ne.symm heq]

/-- Count a record that is charged to a key or to none. -/
def incOpt (t : Tally κ) (o : Option κ) : Tally κ := o.elim t t.inc

/-- Take such a record out of the count. -/
def decOpt (t : Tally κ) (o : Option κ) : Tally κ := o.elim t t.dec

theorem get_incOpt (o : Option κ) : (t.incOpt o).get k = t.get k + (decide (o = some k)).toNat := by
  cases o with
  | none => simp [incOpt]
  | some k' => simp [incOpt, get_inc]

theorem get_decOpt (o : Option κ) : (t.decOpt o).get k = t.get k - (decide (o = some k)).toNat := by
  cases o with
  | none => simp [decOpt]
  | some k' => simp [decOpt, get_dec]

end Tally

end Xpf.Handles
