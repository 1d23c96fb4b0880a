/-
A family of lists and the list of its non-empty members. The roster is kept by hand as the
lists grow and shrink: a member enters it when its list stops being empty and leaves it when
its list has been emptied.

The second half is about lists whose elements carry a key: what is known of the elements of
each key, in their order, is known of the whole list up to the interleaving of the keys.
-/
import Mathlib

set_option autoImplicit false

namespace Xpf.Roster

variable {α κ : Type}

/-- `ring` lists the non-empty members of the family, each of them once. -/
structure Lists (ring : List ℕ) (items : ℕ → List α) : Prop where
  nodup : ring.Nodup
  mem_iff : ∀ b, b ∈ ring ↔ items b ≠ []

section

variable {ring ring' : List ℕ} {items : ℕ → List α} {b n : ℕ} {l : List α}

theorem Lists.empty : Lists [] fun _ => ([] : List α) :=
  ⟨List.nodup_nil, fun b => by simp⟩

theorem Lists.enter (h : Lists ring items) (hb : items b = []) (hl : l ≠ [])
    (hring : ring'.Perm (b :: ring)) : Lists ring' (Function.update items b l) := by
  have hnot : b ∉ ring := fun hmem => (h.mem_iff b).mp hmem hb
  refine ⟨hring.nodup_iff.mpr (List.nodup_cons.mpr ⟨hnot, h.nodup⟩), fun c => ?_⟩
  rw [hring.mem_iff, List.mem_cons]
  rcases eq_or_ne c b with rfl | hne
  · simp [hl]
  · rw [Function.update_of_ne hne, h.mem_iff c]
    simp [hne]

theorem Lists.stay (h : Lists ring items) (hb : items b ≠ []) (hl : l ≠ []) :
    Lists ring (Function.update items b l) := by
  refine ⟨h.nodup, fun c => ?_⟩
  rcases eq_or_ne c b with rfl | hne
  · simp [hl, (h.mem_iff c).mpr hb]
  · rw [Function.update_of_ne hne, h.mem_iff c]

theorem Lists.leave (h : Lists ring items) (b : ℕ) :
    Lists (ring.erase b) (Function.update items b []) := by
  refine ⟨h.nodup.erase b, fun c => ?_⟩
  rw [h.nodup.mem_erase_iff]
  rcases eq_or_ne c b with rfl | hne
  · simp
  · rw [Function.update_of_ne hne, h.mem_iff c]
    simp [hne]

/-- While a member is empty the roster has a place left. -/
theorem Lists.length_lt (h : Lists ring items) (hbound : ∀ c, items c ≠ [] → c < n) (hb : items b = [])
    (hn : b < n) : ring.length < n := by
  have hnot : b ∉ ring := fun hmem => (h.mem_iff b).mp hmem hb
  have hsub : (b :: ring).Subperm (List.range n) := by
    refine List.Nodup.subperm (List.nodup_cons.mpr ⟨hnot, h.nodup⟩) ?_
    intro c hc
    rw [List.mem_range]
    rcases List.mem_cons.mp hc with rfl | hc
    · exact hn
    · exact hbound c ((h.mem_iff c).mp hc)
  have := hsub.length_le
  rw [List.length_cons, List.length_range] at this
  omega

theorem Lists.perm_filter (h : Lists ring items) (hbound : ∀ c, items c ≠ [] → c < n) :
    ring.Perm ((List.range n).filter fun c => items c ≠ []) := by
  refine (List.perm_ext_iff_of_nodup h.nodup (List.nodup_range.filter _)).mpr fun c => ?_
  rw [List.mem_filter, List.mem_range, h.mem_iff c, decide_eq_true_eq]
  exact ⟨fun hc => ⟨hbound c hc, hc⟩, fun hc => hc.2⟩

/-- Summing over the roster is summing over the family. -/
theorem Lists.sum_length (h : Lists ring items) (hbound : ∀ c, items c ≠ [] → c < n) :
    (ring.map fun c => (items c).length).sum = ((List.range n).flatMap items).length := by
  have hdrop : ∀ l : List ℕ,
      ((l.filter fun c => items c ≠ []).map fun c => (items c).length).sum = (l.map fun c => (items c).length).sum := by
    intro l
    induction l with
    | nil => rfl
    | cons c l ih =>
      rcases eq_or_ne (items c) [] with hc | hc
      · rw [List.filter_cons_of_neg (by simpa using hc), ih, List.map_cons, List.sum_cons, hc]
        simp
      · rw [List.filter_cons_of_pos (by simpa using hc), List.map_cons, List.map_cons, List.sum_cons,
          List.sum_cons, ih]
  rw [List.length_flatMap, ((h.perm_filter hbound).map _).sum_eq, hdrop]

end

/-! ## Elements by their key -/

/-- A family with one non-empty member, read in any order, is that member. -/
theorem flatMap_eq_of_unique {l : List ℕ} {b : ℕ} {f : ℕ → List α} (hl : l.Nodup) (hb : b ∈ l)
    (hother : ∀ c ∈ l, c ≠ b → f c = []) : l.flatMap f = f b := by
  induction l with
  | nil => exact absurd hb List.not_mem_nil
  | cons c l ih =>
    obtain ⟨hc, hl⟩ := List.nodup_cons.mp hl
    rw [List.flatMap_cons]
    rcases List.mem_cons.mp hb with rfl | hb
    · have hnil : l.flatMap f = [] := by
        rw [List.flatMap_eq_nil_iff]
        intro d hd
        exact hother d (List.mem_cons_of_mem _ hd) fun heq => hc (heq ▸ hd)
      rw [hnil, List.append_nil]
    · have hne : c ≠ b := fun heq => hc (heq ▸ hb)
      rw [hother c List.mem_cons_self hne, List.nil_append]
      exact ih hl hb fun d hd => hother d (List.mem_cons_of_mem _ hd)

/-- The elements with a key, in their order. -/
def ofKey [DecidableEq κ] (key : α → κ) (k : κ) (l : List α) : List α := l.filter fun a => key a = k

section

variable [DecidableEq κ] {key : α → κ} {k : κ}

@[simp] theorem ofKey_nil : ofKey key k ([] : List α) = [] := rfl

@[simp] theorem ofKey_append (l₁ l₂ : List α) :
    ofKey key k (l₁ ++ l₂) = ofKey key k l₁ ++ ofKey key k l₂ := List.filter_append ..

theorem ofKey_cons (a : α) (l : List α) : ofKey key k (a :: l) = ofKey key k [a] ++ ofKey key k l := by
  rw [← ofKey_append, List.singleton_append]

theorem ofKey_singleton_of_ne {a : α} (h : key a ≠ k) : ofKey key k [a] = [] := by
  simp [ofKey, h]

/-- Two lists with the same elements of each key are rearrangements of each other. -/
theorem perm_of_ofKey_eq [DecidableEq α] {l₁ l₂ : List α} (h : ∀ k, ofKey key k l₁ = ofKey key k l₂) :
    l₁.Perm l₂ := by
  rw [List.perm_iff_count]
  intro a
  have hcount : ∀ l : List α, l.count a = (ofKey key (key a) l).count a := by
    intro l
    exact (List.count_filter (by simp)).symm
  rw [hcount l₁, hcount l₂, h]

end

end Xpf.Roster
