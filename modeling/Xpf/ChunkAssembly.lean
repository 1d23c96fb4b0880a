/-
The receiver's reassembly of chunked full sets: `pkg/cluster/sync_ipsec_chunk_16758.go` and
`sync_dhcp_chunk_15160.go`.

A full set that does not fit one frame travels as numbered chunks under one generation. The
receiver keeps what has arrived of a few generations at a time, the oldest giving way when
one more is opened, and hands the set over once it is complete. The code is written twice,
for names of IPsec associations and for DHCP leases; the two differ only in what a chunk
carries, which is a type here.
-/
import Mathlib
import Xpf.Runs

set_option autoImplicit false

namespace Xpf.ChunkSync

/-! ## Chunks and assemblies -/

/-- The identity of one chunked set. -/
structure ChunkGeneration where
  incarnation : UInt64
  generation : UInt64
  deriving DecidableEq

/-- A decoded chunk: which of how many it is, and how many items the whole set has. -/
structure Chunk (α : Type) where
  key : ChunkGeneration
  index : ℕ
  total : ℕ
  announced : ℕ
  items : List α

/-- One set in progress. `arrived` counts the chunks present and `received`, in 32 bits,
the items they carry. -/
structure Assembly (α : Type) where
  total : ℕ
  announced : ℕ
  parts : AList fun _ : ℕ => List α
  arrived : ℕ
  received : ℕ

/-- The sets in progress, with their keys oldest first. -/
structure ChunkState (α : Type) where
  pending : AList fun _ : ChunkGeneration => Assembly α
  order : List ChunkGeneration

inductive Verdict (α : Type) where
  | refused
  | accepted
  | closed (complete : List α)

variable {α : Type}

/-- The parts under a list of indices, one after another; nothing if one is missing. -/
def collect (parts : ℕ → Option (List α)) : List ℕ → Option (List α)
  | [] => some []
  | i :: is =>
    match parts i with
    | none => none
    | some part => (collect parts is).map (part ++ ·)

namespace Assembly

def opened (c : Chunk α) : Assembly α := ⟨c.total, c.announced, ∅, 0, 0⟩

/-- One chunk more: what stays pending of the assembly, and the verdict on the chunk. A chunk
that contradicts the assembly takes it down. -/
def add (a : Assembly α) (c : Chunk α) : Option (Assembly α) × Verdict α :=
  if a.total ≠ c.total ∨ a.announced ≠ c.announced then (none, .refused)
  else if c.index ∈ a.parts then (none, .refused)
  else
    let a := { a with
      parts := a.parts.insert c.index c.items
      arrived := a.arrived + 1
      received := (a.received + c.items.length) % 2 ^ 32 }
    if a.announced < a.received then (none, .refused)
    else if a.arrived < a.total then (some a, .accepted)
    else
      match collect (fun i => a.parts.lookup i) (List.range a.total) with
      | none => (none, .refused)
      | some complete =>
        if complete.length % 2 ^ 32 ≠ a.announced then (none, .refused) else (none, .closed complete)

end Assembly

namespace ChunkState

def empty : ChunkState α := ⟨∅, []⟩

def removePending (st : ChunkState α) (key : ChunkGeneration) : ChunkState α :=
  if key ∈ st.pending then { pending := st.pending.erase key, order := st.order.erase key } else st

/-- Opening a generation at the cap evicts the oldest pending one. -/
def makeRoom (maxPending : ℕ) (st : ChunkState α) : ChunkState α :=
  if maxPending ≤ st.pending.keys.length then
    match st.order with
    | [] => st
    | oldest :: _ => st.removePending oldest
  else st

/-- The assembly a chunk goes to, opened if there is none. -/
def opening (maxPending : ℕ) (st : ChunkState α) (c : Chunk α) : ChunkState α × Assembly α :=
  match st.pending.lookup c.key with
  | some a => (st, a)
  | none =>
    let st := st.makeRoom maxPending
    ({ pending := st.pending.insert c.key (.opened c), order := st.order ++ [c.key] }, .opened c)

/-- **One chunk.** Every way out but the one that waits for more chunks removes the
assembly. -/
def addChunk (maxPending : ℕ) (st : ChunkState α) (c : Chunk α) : ChunkState α × Verdict α :=
  let (st, a) := st.opening maxPending c
  match a.add c with
  | (some a, verdict) => ({ st with pending := st.pending.insert c.key a }, verdict)
  | (none, verdict) => (st.removePending c.key, verdict)

end ChunkState

/-! ## What an assembly holds -/

theorem collect_eq_some {parts : ℕ → Option (List α)} {is : List ℕ} {out : List α} :
    collect parts is = some out ↔ ∃ ps : List (List α), is.map parts = ps.map some ∧ out = ps.flatten := by
  induction is generalizing out with
  | nil =>
    constructor
    · intro h
      exact ⟨[], rfl, (Option.some.inj h).symm⟩
    · rintro ⟨ps, hps, rfl⟩
      obtain rfl : ps = [] := by simpa using hps.symm
      rfl
  | cons i is ih =>
    unfold collect
    cases hi : parts i with
    | none =>
      simp only [reduceCtorEq, false_iff]
      rintro ⟨ps, hps, -⟩
      cases ps with
      | nil => simp at hps
      | cons p ps => simp [hi] at hps
    | some part =>
      simp only [Option.map_eq_some_iff, ih]
      constructor
      · rintro ⟨out', ⟨ps, hps, rfl⟩, rfl⟩
        exact ⟨part :: ps, by simp [hi, hps], by simp⟩
      · rintro ⟨ps, hps, rfl⟩
        cases ps with
        | nil => simp at hps
        | cons p ps =>
          simp only [List.map_cons, List.cons.injEq, hi, Option.some.injEq] at hps
          obtain ⟨rfl, hps⟩ := hps
          exact ⟨ps.flatten, ⟨ps, hps, rfl⟩, by simp⟩

/-- How many items chunks carry together. -/
def itemCount (cs : List (Chunk α)) : ℕ := (cs.map fun c => c.items.length).sum

@[simp] theorem itemCount_append (cs ds : List (Chunk α)) : itemCount (cs ++ ds) = itemCount cs + itemCount ds := by
  simp [itemCount]

@[simp] theorem itemCount_singleton (c : Chunk α) : itemCount [c] = c.items.length := by
  simp [itemCount]

theorem itemCount_perm {cs ds : List (Chunk α)} (h : cs.Perm ds) : itemCount cs = itemCount ds :=
  (h.map _).sum_eq

theorem length_flatMap_items (cs : List (Chunk α)) : (cs.flatMap Chunk.items).length = itemCount cs := by
  simp [itemCount, List.length_flatMap]

/-- The assembly is what those chunks, all of its generation, add up to. -/
structure Assembly.Holds (a : Assembly α) (key : ChunkGeneration) (cs : List (Chunk α)) : Prop where
  agree : ∀ c ∈ cs, c.key = key ∧ c.total = a.total ∧ c.announced = a.announced
  nodup : (cs.map Chunk.index).Nodup
  parts : ∀ i items, a.parts.lookup i = some items ↔ ∃ c ∈ cs, c.index = i ∧ c.items = items
  arrived : a.arrived = cs.length
  received : a.received = itemCount cs % 2 ^ 32

theorem Assembly.holds_opened (c : Chunk α) : (Assembly.opened c).Holds c.key [] where
  agree := by simp
  nodup := List.nodup_nil
  parts i items := by simp [opened]
  arrived := rfl
  received := rfl

section

variable {a : Assembly α} {key : ChunkGeneration} {cs : List (Chunk α)} {c : Chunk α}

theorem Assembly.Holds.mem_parts (h : a.Holds key cs) (i : ℕ) : i ∈ a.parts ↔ ∃ c ∈ cs, c.index = i := by
  rw [← AList.lookup_isSome, Option.isSome_iff_exists]
  constructor
  · rintro ⟨items, hi⟩
    obtain ⟨c, hc, hindex, -⟩ := (h.parts i items).mp hi
    exact ⟨c, hc, hindex⟩
  · rintro ⟨c, hc, hindex⟩
    exact ⟨c.items, (h.parts i c.items).mpr ⟨c, hc, hindex, rfl⟩⟩

/-- The assembly with one chunk more, before the verdict. -/
def Assembly.stored (a : Assembly α) (c : Chunk α) : Assembly α :=
  { a with
    parts := a.parts.insert c.index c.items
    arrived := a.arrived + 1
    received := (a.received + c.items.length) % 2 ^ 32 }

theorem Assembly.Holds.stored (h : a.Holds key cs) (hkey : c.key = key) (htotal : c.total = a.total)
    (hannounced : c.announced = a.announced) (hnew : c.index ∉ a.parts) : (a.stored c).Holds key (cs ++ [c]) where
  agree := by
    intro d hd
    rcases List.mem_append.mp hd with hd | hd
    · exact h.agree d hd
    · rw [List.mem_singleton.mp hd]
      exact ⟨hkey, htotal, hannounced⟩
  nodup := by
    rw [List.map_append, List.nodup_append]
    refine ⟨h.nodup, by simp, ?_⟩
    rintro i hi j hj rfl
    obtain ⟨d, hd, rfl⟩ := List.mem_map.mp hi
    have hindex : d.index = c.index := by simpa using hj
    exact hnew ((h.mem_parts _).mpr ⟨d, hd, hindex⟩)
  parts := by
    intro i items
    unfold Assembly.stored
    by_cases hi : i = c.index
    · subst hi
      rw [AList.lookup_insert]
      constructor
      · intro heq
        exact ⟨c, by simp, rfl, Option.some.inj heq⟩
      · rintro ⟨d, hd, hindex, rfl⟩
        rcases List.mem_append.mp hd with hd | hd
        · exact absurd ((h.mem_parts _).mpr ⟨d, hd, hindex⟩) hnew
        · rw [List.mem_singleton.mp hd]
    · rw [AList.lookup_insert_ne hi, h.parts]
      constructor
      · rintro ⟨d, hd, hd'⟩
        exact ⟨d, List.mem_append_left _ hd, hd'⟩
      · rintro ⟨d, hd, hindex, hitems⟩
        rcases List.mem_append.mp hd with hd | hd
        · exact ⟨d, hd, hindex, hitems⟩
        · rw [List.mem_singleton.mp hd] at hindex
          exact absurd hindex.symm hi
  arrived := by
    rw [List.length_append, List.length_singleton, ← h.arrived]
    rfl
  received := by
    show (a.received + c.items.length) % 2 ^ 32 = _
    rw [itemCount_append, itemCount_singleton, h.received, Nat.mod_add_mod]

/-- What the assembly yields under a list of indices comes from chunks with those indices. -/
theorem Assembly.Holds.collect_iff (h : a.Holds key cs) {is : List ℕ} {out : List α} :
    collect (fun i => a.parts.lookup i) is = some out ↔
      ∃ chunks : List (Chunk α), chunks.map Chunk.index = is ∧ (∀ c ∈ chunks, c ∈ cs) ∧ out = chunks.flatMap Chunk.items := by
  rw [collect_eq_some]
  constructor
  · rintro ⟨ps, hps, rfl⟩
    suffices hchunks : ∃ chunks : List (Chunk α), chunks.map Chunk.index = is ∧ (∀ c ∈ chunks, c ∈ cs)
        ∧ chunks.map Chunk.items = ps by
      obtain ⟨chunks, hindex, hmem, rfl⟩ := hchunks
      exact ⟨chunks, hindex, hmem, (List.flatMap_def).symm⟩
    induction is generalizing ps with
    | nil =>
      obtain rfl : ps = [] := by simpa using hps.symm
      exact ⟨[], rfl, by simp, rfl⟩
    | cons i is ih =>
      cases ps with
      | nil => simp at hps
      | cons p ps =>
        simp only [List.map_cons, List.cons.injEq] at hps
        obtain ⟨c, hc, rfl, rfl⟩ := (h.parts i p).mp hps.1
        obtain ⟨chunks, hindex, hmem, hitems⟩ := ih ps hps.2
        refine ⟨c :: chunks, by simp [hindex], ?_, by simp [hitems]⟩
        intro d hd
        rcases List.mem_cons.mp hd with rfl | hd
        · exact hc
        · exact hmem d hd
  · rintro ⟨chunks, rfl, hmem, rfl⟩
    refine ⟨chunks.map Chunk.items, ?_, List.flatMap_def⟩
    rw [List.map_map, List.map_map]
    refine List.map_congr_left fun c hc => ?_
    exact (h.parts _ _).mpr ⟨c, hmem c hc, rfl, rfl⟩

theorem itemCount_le_of_subset {chunks : List (Chunk α)} (hnodup : (chunks.map Chunk.index).Nodup)
    (hsub : ∀ c ∈ chunks, c ∈ cs) : itemCount chunks ≤ itemCount cs := by
  obtain ⟨l, hperm, hl⟩ := (hnodup.of_map _).subperm hsub
  rw [← itemCount_perm hperm]
  exact (hl.map _).sum_le_sum fun _ _ => Nat.zero_le _

/-- A chunk can carry no more than half of what 32 bits count. -/
def Chunk.Modest (c : Chunk α) : Prop := c.items.length < 2 ^ 31 ∧ c.announced < 2 ^ 31

/-- The set handed over is those chunks, in the order of their indices. -/
structure Closes (c : Chunk α) (chunks : List (Chunk α)) (complete : List α) : Prop where
  indices : chunks.map Chunk.index = List.range c.total
  generation : ∀ d ∈ chunks, d.key = c.key ∧ d.total = c.total ∧ d.announced = c.announced
  concat : complete = chunks.flatMap Chunk.items
  count : complete.length % 2 ^ 32 = c.announced

/-- The verdict on a chunk that agrees with the assembly and is new to it. -/
theorem Assembly.add_eq (htotal : a.total = c.total) (hannounced : a.announced = c.announced) (hnew : c.index ∉ a.parts) :
    a.add c =
      if a.announced < (a.stored c).received then (none, .refused)
      else if (a.stored c).arrived < a.total then (some (a.stored c), .accepted)
      else match collect (fun i => (a.stored c).parts.lookup i) (List.range a.total) with
        | none => (none, .refused)
        | some complete =>
          if complete.length % 2 ^ 32 ≠ a.announced then (none, .refused) else (none, .closed complete) := by
  unfold Assembly.add
  rw [if_neg (by simp [htotal, hannounced]), if_neg hnew]
  rfl

/-- What a chunk does to an assembly of its generation. -/
theorem Assembly.Holds.add_cases (h : a.Holds key cs) (hkey : c.key = key) :
    a.add c = (none, .refused)
      ∨ (a.add c = (some (a.stored c), .accepted) ∧ (a.stored c).Holds key (cs ++ [c])
        ∧ itemCount (cs ++ [c]) % 2 ^ 32 ≤ a.announced)
      ∨ ∃ chunks complete, a.add c = (none, .closed complete) ∧ Closes c chunks complete
        ∧ (∀ d ∈ chunks, d ∈ cs ++ [c]) ∧ itemCount (cs ++ [c]) % 2 ^ 32 ≤ a.announced ∧ a.announced = c.announced := by
  by_cases hagree : a.total ≠ c.total ∨ a.announced ≠ c.announced
  · exact Or.inl (if_pos hagree)
  · obtain ⟨htotal, hannounced⟩ := not_or.mp hagree
    rw [not_not] at htotal hannounced
    by_cases hdup : c.index ∈ a.parts
    · refine Or.inl ?_
      unfold Assembly.add
      rw [if_neg hagree, if_pos hdup]
    · have hstored := h.stored hkey htotal.symm hannounced.symm hdup
      have hreceived := hstored.received
      rw [Assembly.add_eq htotal hannounced hdup]
      by_cases hover : a.announced < (a.stored c).received
      · exact Or.inl (if_pos hover)
      · rw [if_neg hover]
        rw [hreceived, not_lt] at hover
        by_cases hwait : (a.stored c).arrived < a.total
        · rw [if_pos hwait]
          exact Or.inr (Or.inl ⟨rfl, hstored, hover⟩)
        · rw [if_neg hwait]
          cases hcollect : collect (fun i => (a.stored c).parts.lookup i) (List.range a.total) with
          | none => exact Or.inl rfl
          | some complete =>
            simp only
            by_cases hcount : complete.length % 2 ^ 32 ≠ a.announced
            · exact Or.inl (if_pos hcount)
            · rw [if_neg hcount]
              rw [not_not] at hcount
              obtain ⟨chunks, hindex, hmem, hconcat⟩ := hstored.collect_iff.mp hcollect
              refine Or.inr (Or.inr ⟨chunks, complete, rfl, ?_, hmem, hover, hannounced⟩)
              refine ⟨htotal ▸ hindex, ?_, hconcat, hannounced ▸ hcount⟩
              intro d hd
              obtain ⟨hd₁, hd₂, hd₃⟩ := hstored.agree d (hmem d hd)
              exact ⟨hd₁.trans hkey.symm, hd₂.trans htotal, hd₃.trans hannounced⟩

end

/-! ## The pending table -/

namespace ChunkState

variable {m : ℕ} {st : ChunkState α} {c : Chunk α} {key : ChunkGeneration}

/-- The order names the pending sets, each once, and they are within the cap. -/
structure Consistent (m : ℕ) (st : ChunkState α) : Prop where
  same : st.order.Perm st.pending.keys
  bounded : st.order.length ≤ m

theorem consistent_empty (m : ℕ) : (empty : ChunkState α).Consistent m where
  same := List.Perm.refl _
  bounded := Nat.zero_le m

theorem Consistent.nodup (h : st.Consistent m) : st.order.Nodup := h.same.nodup_iff.mpr st.pending.keys_nodup

theorem Consistent.mem_order (h : st.Consistent m) : key ∈ st.order ↔ key ∈ st.pending := h.same.mem_iff

theorem lookup_removePending (st : ChunkState α) (key k : ChunkGeneration) :
    (st.removePending key).pending.lookup k = if k = key then none else st.pending.lookup k := by
  unfold removePending
  split_ifs with hmem hk hk
  · rw [hk]
    exact AList.lookup_erase _ _
  · exact AList.lookup_erase_ne hk
  · rw [hk]
    exact AList.lookup_eq_none.mpr hmem
  · rfl

theorem Consistent.removePending (h : st.Consistent m) (key : ChunkGeneration) :
    (st.removePending key).Consistent m := by
  unfold ChunkState.removePending
  split_ifs with hmem
  · refine ⟨?_, (List.length_erase_le).trans h.bounded⟩
    show (st.order.erase key).Perm (st.pending.erase key).keys
    rw [AList.keys_erase]
    exact h.same.erase key
  · exact h

theorem makeRoom_of_lt (h : st.pending.keys.length < m) : st.makeRoom m = st := by
  unfold makeRoom
  rw [if_neg (by omega)]

/-- Room is made without touching the sets that stay. -/
theorem lookup_makeRoom (m : ℕ) (st : ChunkState α) (k : ChunkGeneration) :
    (st.makeRoom m).pending.lookup k = st.pending.lookup k ∨ (st.makeRoom m).pending.lookup k = none := by
  unfold makeRoom
  split_ifs with hfull
  · cases horder : st.order with
    | nil => exact Or.inl rfl
    | cons oldest rest =>
      simp only
      rw [lookup_removePending]
      split_ifs with hk
      · exact Or.inr rfl
      · exact Or.inl rfl
  · exact Or.inl rfl

theorem Consistent.makeRoom (hm : 0 < m) (h : st.Consistent m) :
    (st.makeRoom m).Consistent m ∧ (st.makeRoom m).order.length < m := by
  have hlen : st.order.length = st.pending.keys.length := h.same.length_eq
  unfold ChunkState.makeRoom
  split_ifs with hfull
  · cases horder : st.order with
    | nil =>
      rw [horder, List.length_nil] at hlen
      omega
    | cons oldest rest =>
      simp only
      refine ⟨h.removePending oldest, ?_⟩
      have hmem : oldest ∈ st.pending := h.mem_order.mp (by simp [horder])
      have hbound := h.bounded
      unfold ChunkState.removePending
      rw [if_pos hmem]
      simp only [horder, List.erase_cons_head, List.length_cons] at hbound ⊢
      omega
  · exact ⟨h, by omega⟩

theorem opening_snd (m : ℕ) (st : ChunkState α) (c : Chunk α) :
    (st.opening m c).2 = (st.pending.lookup c.key).getD (.opened c) := by
  unfold opening
  cases st.pending.lookup c.key <;> rfl

/-- The other sets, when a chunk arrives: they stay, but for one that had to give way. -/
theorem lookup_opening_ne (m : ℕ) (st : ChunkState α) {c : Chunk α} {k : ChunkGeneration} (hk : k ≠ c.key) :
    (st.opening m c).1.pending.lookup k = st.pending.lookup k ∨ (st.opening m c).1.pending.lookup k = none := by
  unfold opening
  cases st.pending.lookup c.key with
  | some a => exact Or.inl rfl
  | none =>
    simp only
    rw [AList.lookup_insert_ne hk]
    exact lookup_makeRoom m st k

theorem Consistent.opening (hm : 0 < m) (h : st.Consistent m) (c : Chunk α) : (st.opening m c).1.Consistent m := by
  unfold ChunkState.opening
  cases hlookup : st.pending.lookup c.key with
  | some a => exact h
  | none =>
    simp only
    obtain ⟨hroom, hlt⟩ := h.makeRoom hm
    have habsent : c.key ∉ (st.makeRoom m).pending := by
      rw [← AList.lookup_eq_none]
      rcases lookup_makeRoom m st c.key with heq | heq
      · rw [heq, hlookup]
      · exact heq
    refine ⟨?_, ?_⟩
    · have hkeys : ((st.makeRoom m).pending.insert c.key (.opened c)).keys = c.key :: (st.makeRoom m).pending.keys := by
        rw [AList.keys_insert, List.erase_of_not_mem habsent]
      rw [hkeys]
      exact (List.perm_append_singleton _ _).trans (hroom.same.cons c.key)
    · rw [List.length_append, List.length_singleton]
      omega

/-- The pending sets and their order keep step, whatever chunk arrives. -/
theorem Consistent.addChunk (hm : 0 < m) (h : st.Consistent m) (c : Chunk α) : (st.addChunk m c).1.Consistent m := by
  have hopening := h.opening hm c
  have hmem : c.key ∈ (st.opening m c).1.pending := by
    unfold ChunkState.opening
    cases hlookup : st.pending.lookup c.key with
    | some a => exact AList.lookup_isSome.mp (by rw [hlookup]; rfl)
    | none => exact AList.mem_insert _ |>.mpr (Or.inl rfl)
  unfold ChunkState.addChunk
  simp only
  cases hadd : (st.opening m c).2.add c with
  | mk rest verdict =>
    cases rest with
    | none => exact hopening.removePending c.key
    | some a =>
      refine ⟨hopening.same.trans ?_, hopening.bounded⟩
      rw [AList.keys_insert]
      exact List.perm_cons_erase hmem

theorem addChunk_verdict (m : ℕ) (st : ChunkState α) (c : Chunk α) :
    (st.addChunk m c).2 = (((st.pending.lookup c.key).getD (.opened c)).add c).2 := by
  unfold addChunk
  simp only [opening_snd]
  rcases ((st.pending.lookup c.key).getD (.opened c)).add c with ⟨_ | a, verdict⟩ <;> rfl

theorem lookup_addChunk_self (m : ℕ) (st : ChunkState α) (c : Chunk α) :
    (st.addChunk m c).1.pending.lookup c.key = (((st.pending.lookup c.key).getD (.opened c)).add c).1 := by
  unfold addChunk
  simp only [opening_snd]
  rcases ((st.pending.lookup c.key).getD (.opened c)).add c with ⟨_ | a, verdict⟩
  · simp only
    rw [lookup_removePending, if_pos rfl]
  · exact AList.lookup_insert _

theorem lookup_addChunk_ne (m : ℕ) (st : ChunkState α) {c : Chunk α} {k : ChunkGeneration} (hk : k ≠ c.key) :
    (st.addChunk m c).1.pending.lookup k = (st.opening m c).1.pending.lookup k := by
  unfold addChunk
  simp only
  rcases (st.opening m c).2.add c with ⟨_ | a, verdict⟩
  · simp only
    rw [lookup_removePending, if_neg hk]
  · exact AList.lookup_insert_ne hk

/-- With room for the generation nothing gives way to it. -/
theorem lookup_addChunk_of_room {c : Chunk α} (hroom : c.key ∈ st.pending ∨ st.pending.keys.length < m)
    {k : ChunkGeneration} (hk : k ≠ c.key) : (st.addChunk m c).1.pending.lookup k = st.pending.lookup k := by
  rw [lookup_addChunk_ne m st hk]
  unfold opening
  cases hlookup : st.pending.lookup c.key with
  | some a => rfl
  | none =>
    have hlt : st.pending.keys.length < m :=
      hroom.resolve_left (AList.lookup_eq_none.mp hlookup)
    simp only
    rw [AList.lookup_insert_ne hk, makeRoom_of_lt hlt]

end ChunkState

/-! ## Runs -/

/-- The state of the receiver and the sets it has handed over, one chunk later. -/
def deliver (m : ℕ) (s : ChunkState α × List (ChunkGeneration × List α)) (c : Chunk α) :
    ChunkState α × List (ChunkGeneration × List α) :=
  ((s.1.addChunk m c).1,
    match (s.1.addChunk m c).2 with
    | .closed complete => s.2 ++ [(c.key, complete)]
    | _ => s.2)

/-- The receiver after a history of chunks. -/
def received (m : ℕ) (history : List (Chunk α)) : ChunkState α × List (ChunkGeneration × List α) :=
  Runs.run (deliver m) (.empty, []) history

/-- The chunk was accepted somewhere in the history, and left waiting for others. -/
def AcceptedIn (m : ℕ) (history : List (Chunk α)) (c : Chunk α) : Prop :=
  ∃ before, before ++ [c] <+: history ∧ ((received m before).1.addChunk m c).2 = .accepted

theorem received_snoc (m : ℕ) (before : List (Chunk α)) (c : Chunk α) :
    received m (before ++ [c]) = deliver m (received m before) c := Runs.run_snoc _ _

theorem AcceptedIn.mono {m : ℕ} {before after : List (Chunk α)} {c : Chunk α} (h : AcceptedIn m before c)
    (hpre : before <+: after) : AcceptedIn m after c := by
  obtain ⟨b, hb, haccepted⟩ := h
  exact ⟨b, hb.trans hpre, haccepted⟩

/-- **The pending table.** After every history the sets in progress and their order hold the
same keys, within the cap. -/
theorem received_consistent {m : ℕ} (hm : 0 < m) (history : List (Chunk α)) : (received m history).1.Consistent m :=
  Runs.run_invariant (P := fun s : ChunkState α × List (ChunkGeneration × List α) => s.1.Consistent m) (ChunkState.consistent_empty m)
    (fun _ c h => h.addChunk hm c) history

/-- What is pending was accepted, chunk by chunk. -/
def Traced (m : ℕ) (before : List (Chunk α)) (key : ChunkGeneration) (a : Assembly α) : Prop :=
  ∃ cs, a.Holds key cs ∧ (∀ d ∈ cs, AcceptedIn m before d) ∧ ((∀ d ∈ before, d.Modest) → itemCount cs ≤ a.announced)

theorem traced_opening {m : ℕ} {before : List (Chunk α)}
    (ih : ∀ key a, (received m before).1.pending.lookup key = some a → Traced m before key a) (c : Chunk α) :
    Traced m before c.key (((received m before).1.pending.lookup c.key).getD (.opened c)) := by
  cases hlookup : (received m before).1.pending.lookup c.key with
  | none => exact ⟨[], Assembly.holds_opened c, by simp, fun _ => Nat.zero_le _⟩
  | some a => exact ih c.key a hlookup

/-- Below half of the counter nothing wraps around. -/
theorem itemCount_snoc_mod {cs : List (Chunk α)} {c : Chunk α} {announced : ℕ} (hc : c.Modest)
    (hannounced : announced = c.announced) (hcs : itemCount cs ≤ announced) :
    itemCount (cs ++ [c]) % 2 ^ 32 = itemCount (cs ++ [c]) := by
  have hlen := hc.1
  have hbound := hc.2
  rw [itemCount_append, itemCount_singleton]
  exact Nat.mod_eq_of_lt (by omega)

theorem received_traced (m : ℕ) (history : List (Chunk α)) (key : ChunkGeneration) (a : Assembly α)
    (hlookup : (received m history).1.pending.lookup key = some a) : Traced m history key a := by
  induction history using List.reverseRecOn generalizing key a with
  | nil => simp [received, Runs.run, ChunkState.empty] at hlookup
  | append_singleton before c ih =>
    rw [received_snoc] at hlookup
    simp only [deliver] at hlookup
    have hpre : before <+: before ++ [c] := List.prefix_append _ _
    by_cases hkey : key = c.key
    · subst hkey
      obtain ⟨cs, hholds, haccepted, hcount⟩ := traced_opening ih c
      rw [ChunkState.lookup_addChunk_self] at hlookup
      have hverdict := ChunkState.addChunk_verdict m (received m before).1 c
      rcases hholds.add_cases rfl with hadd | ⟨hadd, hstored, hle⟩ | ⟨chunks, complete, hadd, -⟩
      · rw [hadd] at hlookup
        simp at hlookup
      · rw [hadd] at hlookup hverdict
        obtain rfl := Option.some.inj hlookup
        refine ⟨cs ++ [c], hstored, ?_, ?_⟩
        · intro d hd
          rcases List.mem_append.mp hd with hd | hd
          · exact (haccepted d hd).mono hpre
          · rw [List.mem_singleton.mp hd]
            exact ⟨before, List.prefix_refl _, hverdict⟩
        · intro hmodest
          have hagree := hstored.agree c (by simp)
          rw [← itemCount_snoc_mod (hmodest c (by simp)) hagree.2.2.symm
            (hcount fun d hd => hmodest d (List.mem_append_left _ hd))]
          exact hle
      · rw [hadd] at hlookup
        simp at hlookup
    · rw [ChunkState.lookup_addChunk_ne m _ hkey] at hlookup
      rcases ChunkState.lookup_opening_ne m (received m before).1 hkey with heq | heq
      · obtain ⟨cs, hholds, haccepted, hcount⟩ := ih key a (heq ▸ hlookup)
        refine ⟨cs, hholds, fun d hd => (haccepted d hd).mono hpre, fun hmodest => hcount fun d hd => ?_⟩
        exact hmodest d (List.mem_append_left _ hd)
      · rw [heq] at hlookup
        simp at hlookup

/-- **What closes.** After every history, a set is handed over only as the concatenation, in
the order of the indices, of one accepted chunk per index of one generation, and has the
number of items that was announced. -/
theorem closed_is_concatenation (m : ℕ) (before : List (Chunk α)) (c : Chunk α) {complete : List α}
    (h : ((received m before).1.addChunk m c).2 = .closed complete) :
    ∃ chunks, Closes c chunks complete ∧ (∀ d ∈ chunks, d = c ∨ AcceptedIn m before d)
      ∧ ((∀ d ∈ before ++ [c], d.Modest) → complete.length = c.announced) := by
  obtain ⟨cs, hholds, haccepted, hcount⟩ := traced_opening (received_traced m before) c
  rw [ChunkState.addChunk_verdict] at h
  rcases hholds.add_cases rfl with hadd | ⟨hadd, -, -⟩ | ⟨chunks, complete', hadd, hcloses, hmem, hle, hannounced⟩
  · rw [hadd] at h
    simp at h
  · rw [hadd] at h
    simp at h
  · rw [hadd] at h
    obtain rfl : complete' = complete := by simpa using h
    refine ⟨chunks, hcloses, ?_, ?_⟩
    · intro d hd
      rcases List.mem_append.mp (hmem d hd) with hd | hd
      · exact Or.inr (haccepted d hd)
      · exact Or.inl (List.mem_singleton.mp hd)
    · intro hmodest
      have hmod := itemCount_snoc_mod (hmodest c (by simp)) hannounced
        (hcount fun d hd => hmodest d (List.mem_append_left _ hd))
      have hsub := itemCount_le_of_subset (by rw [hcloses.indices]; exact List.nodup_range) hmem
      have hcl := hcloses.count
      rw [hcloses.concat, length_flatMap_items] at hcl ⊢
      have hbound := (hmodest c (by simp)).2
      rw [Nat.mod_eq_of_lt (by omega)] at hcl
      exact hcl

/-! ## Reassembly -/

/-- The chunks a set was split into: one generation, numbered from zero. -/
structure Split (key : ChunkGeneration) (cs : List (Chunk α)) : Prop where
  nonempty : cs ≠ []
  indices : cs.map Chunk.index = List.range cs.length
  generation : ∀ c ∈ cs, c.key = key ∧ c.total = cs.length ∧ c.announced = itemCount cs
  bounded : itemCount cs < 2 ^ 32

/-- A chunk of the split that is still awaited is accepted, and the last one closes the set. -/
theorem Split.add_awaited {key : ChunkGeneration} {cs : List (Chunk α)} (hsplit : Split key cs) {a : Assembly α}
    {p : List (Chunk α)} {c : Chunk α} {rest : List (Chunk α)} (h : a.Holds key p) (htotal : a.total = cs.length)
    (hannounced : a.announced = itemCount cs) (hperm : (p ++ [c] ++ rest).Perm cs) :
    (rest ≠ [] ∧ a.add c = (some (a.stored c), .accepted) ∧ (a.stored c).Holds key (p ++ [c]))
      ∨ (rest = [] ∧ a.add c = (none, .closed (cs.flatMap Chunk.items))) := by
  have hmem : c ∈ cs := hperm.mem_iff.mp (by simp)
  obtain ⟨hckey, hctotal, hcannounced⟩ := hsplit.generation c hmem
  have hnodup : ((p ++ [c] ++ rest).map Chunk.index).Nodup := by
    rw [(hperm.map Chunk.index).nodup_iff, hsplit.indices]
    exact List.nodup_range
  have hnew : c.index ∉ a.parts := by
    rw [h.mem_parts]
    rintro ⟨d, hd, hindex⟩
    simp only [List.map_append, List.append_assoc, List.nodup_append] at hnodup
    exact hnodup.2.2 d.index (List.mem_map_of_mem hd) c.index (by simp) hindex
  have hstored := h.stored hckey (hctotal.trans htotal.symm) (hcannounced.trans hannounced.symm) hnew
  have hcount : itemCount (p ++ [c]) + itemCount rest = itemCount cs := by
    rw [← itemCount_append, itemCount_perm hperm]
  have hlength : p.length + 1 + rest.length = cs.length := by
    have hlen := hperm.length_eq
    simp only [List.length_append, List.length_singleton] at hlen
    exact hlen
  have hbounded := hsplit.bounded
  have hnot : ¬ a.announced < (a.stored c).received := by
    rw [hstored.received, Nat.mod_eq_of_lt (by omega)]
    omega
  have harrived : (a.stored c).arrived = p.length + 1 := by
    rw [hstored.arrived]
    simp
  rw [Assembly.add_eq (htotal.trans hctotal.symm) (hannounced.trans hcannounced.symm) hnew, if_neg hnot, harrived]
  by_cases hrest : rest = []
  · subst hrest
    right
    simp only [List.append_nil, List.length_nil, Nat.add_zero] at hperm hlength
    have hcollect : collect (fun i => (a.stored c).parts.lookup i) (List.range a.total)
        = some (cs.flatMap Chunk.items) := by
      refine hstored.collect_iff.mpr ⟨cs, by rw [hsplit.indices, htotal], ?_, rfl⟩
      exact fun d hd => hperm.mem_iff.mpr hd
    rw [if_neg (by omega), hcollect]
    refine ⟨rfl, if_neg ?_⟩
    rw [not_not, length_flatMap_items, Nat.mod_eq_of_lt hbounded, hannounced]
  · left
    have hpos := List.length_pos_of_ne_nil hrest
    rw [if_pos (by omega)]
    exact ⟨hrest, rfl, hstored⟩

/-- Where the receiver stands once `seen` of the split has arrived: it holds just that, and
has handed the set over once, if it is whole. -/
structure Progress (m : ℕ) (key : ChunkGeneration) (cs : List (Chunk α)) (others : List ChunkGeneration)
    (s : ChunkState α × List (ChunkGeneration × List α)) (seen : List (Chunk α)) : Prop where
  keys : ∀ k ∈ s.1.pending, k = key ∨ k ∈ others
  closed : s.2.filter (fun e => e.1 = key) = if seen.length = cs.length then [(key, cs.flatMap Chunk.items)] else []
  waiting : seen.length < cs.length → ∃ a, (s.1.pending.lookup key).getD ⟨cs.length, itemCount cs, ∅, 0, 0⟩ = a
    ∧ a.Holds key seen ∧ a.total = cs.length ∧ a.announced = itemCount cs

section

variable {m : ℕ} {key : ChunkGeneration} {cs seen : List (Chunk α)} {others : List ChunkGeneration}
  {s : ChunkState α × List (ChunkGeneration × List α)} {c : Chunk α}

/-- Up to the cap there is room for every generation. -/
theorem Progress.room (h : Progress m key cs others s seen) (hothers : others.length < m)
    (hc : c.key = key ∨ c.key ∈ others) : c.key ∈ s.1.pending ∨ s.1.pending.keys.length < m := by
  by_cases hmem : c.key ∈ s.1.pending
  · exact Or.inl hmem
  · refine Or.inr ?_
    have hsub : s.1.pending.keys ⊆ (key :: others).erase c.key := by
      intro k hk
      have hne : k ≠ c.key := fun heq => hmem (heq ▸ hk)
      rw [List.mem_erase_of_ne hne, List.mem_cons]
      exact h.keys k hk
    have hlen := (List.Nodup.subperm s.1.pending.keys_nodup hsub).length_le
    rw [List.length_erase_of_mem (List.mem_cons.mpr hc), List.length_cons] at hlen
    omega

theorem Progress.keys_deliver (h : Progress m key cs others s seen) (hc : c.key = key ∨ c.key ∈ others)
    (hothers : others.length < m) : ∀ k ∈ (deliver m s c).1.pending, k = key ∨ k ∈ others := by
  intro k hk
  by_cases hkc : k = c.key
  · rw [hkc]
    exact hc
  · refine h.keys k ?_
    rw [← AList.lookup_isSome] at hk ⊢
    rw [← ChunkState.lookup_addChunk_of_room (h.room hothers hc) hkc]
    exact hk

/-- A chunk of another generation changes nothing for this one. -/
theorem Progress.other (h : Progress m key cs others s seen) (hothers : others.length < m) (hc : c.key ∈ others)
    (hne : c.key ≠ key) : Progress m key cs others (deliver m s c) seen where
  keys := h.keys_deliver (Or.inr hc) hothers
  closed := by
    rw [← h.closed]
    simp only [deliver]
    cases (s.1.addChunk m c).2 with
    | refused => rfl
    | accepted => rfl
    | closed complete => simp [hne]
  waiting := by
    have hlookup : (deliver m s c).1.pending.lookup key = s.1.pending.lookup key :=
      ChunkState.lookup_addChunk_of_room (h.room hothers (Or.inr hc)) hne.symm
    rw [hlookup]
    exact h.waiting

/-- The next chunk of the split. -/
theorem Progress.next (hsplit : Split key cs) (h : Progress m key cs others s seen) (hothers : others.length < m)
    {rest : List (Chunk α)} (hperm : (seen ++ [c] ++ rest).Perm cs) : Progress m key cs others (deliver m s c) (seen ++ [c]) := by
  have hmem : c ∈ cs := hperm.mem_iff.mp (by simp)
  obtain ⟨hckey, hctotal, hcannounced⟩ := hsplit.generation c hmem
  have hlength : seen.length + 1 + rest.length = cs.length := by
    have hlen := hperm.length_eq
    simp only [List.length_append, List.length_singleton] at hlen
    exact hlen
  obtain ⟨a, hlookup, hholds, htotal, hannounced⟩ := h.waiting (by omega)
  have hopened : Assembly.opened c = ⟨cs.length, itemCount cs, ∅, 0, 0⟩ := by
    rw [Assembly.opened, hctotal, hcannounced]
  have hself := ChunkState.lookup_addChunk_self m s.1 c
  have hverdict := ChunkState.addChunk_verdict m s.1 c
  rw [hopened, hckey, hlookup] at hself hverdict
  have hlog := h.closed
  rw [if_neg (by omega)] at hlog
  refine ⟨h.keys_deliver (Or.inl hckey) hothers, ?_, ?_⟩
  · simp only [deliver, hverdict, List.length_append, List.length_singleton]
    rcases hsplit.add_awaited hholds htotal hannounced hperm with ⟨hrest, hadd, -⟩ | ⟨hrest, hadd⟩
    · have hpos := List.length_pos_of_ne_nil hrest
      rw [hadd, if_neg (by omega)]
      exact hlog
    · rw [hrest, List.length_nil] at hlength
      rw [hadd, if_pos (by omega)]
      simp only
      rw [List.filter_append, hlog]
      simp [hckey]
  · intro hlt
    simp only [List.length_append, List.length_singleton] at hlt
    rcases hsplit.add_awaited hholds htotal hannounced hperm with ⟨-, hadd, hstored⟩ | ⟨hrest, -⟩
    · rw [hadd] at hself
      refine ⟨a.stored c, ?_, hstored, htotal, hannounced⟩
      simp only [deliver, hself, Option.getD_some]
    · rw [hrest, List.length_nil] at hlength
      omega

/-- **Reassembly.** The chunks of a split, delivered in any order and among chunks of other
generations that leave room for it, are handed over once, as the set they were split
from. -/
theorem received_split (hsplit : Split key cs) (hothers : others.length < m) {history : List (Chunk α)}
    (hdelivered : (history.filter fun c => c.key = key).Perm cs) (hkeys : ∀ c ∈ history, c.key = key ∨ c.key ∈ others) :
    (received m history).2.filter (fun e => e.1 = key) = [(key, cs.flatMap Chunk.items)] := by
  suffices hprogress : ∀ before after, before ++ after = history →
      Progress m key cs others (received m before) (before.filter fun c => c.key = key) by
    have hall := (hprogress history [] (List.append_nil _)).closed
    rw [if_pos hdelivered.length_eq] at hall
    exact hall
  intro before
  induction before using List.reverseRecOn with
  | nil =>
    intro after _
    have hpos := List.length_pos_of_ne_nil hsplit.nonempty
    refine ⟨by simp [received, Runs.run, ChunkState.empty], ?_, ?_⟩
    · rw [List.filter_nil, List.length_nil, if_neg (by omega)]
      rfl
    · intro _
      refine ⟨⟨cs.length, itemCount cs, ∅, 0, 0⟩, by simp [received, Runs.run, ChunkState.empty], ?_, rfl, rfl⟩
      exact ⟨by simp, List.nodup_nil, by simp, rfl, rfl⟩
  | append_singleton before c ih =>
    intro after happ
    have hbefore := ih (c :: after) (by rw [← happ]; simp)
    have hmem : c ∈ history := by
      rw [← happ]
      simp
    rw [received_snoc, List.filter_append]
    by_cases hc : c.key = key
    · have hperm : ((before.filter fun c => c.key = key) ++ [c] ++ after.filter fun c => c.key = key).Perm cs := by
        rw [← happ] at hdelivered
        simpa [List.filter_append, hc] using hdelivered
      simpa [hc] using hbefore.next hsplit hothers hperm
    · have hother := hbefore.other hothers ((hkeys c hmem).resolve_left hc) hc
      simpa [hc] using hother

end

end Xpf.ChunkSync
