/-
Deterministic CGNAT: `userspace-dp/src/nat/allocator/deterministic.rs`, and the block of
ports `allocate_deterministic_v4` and `_v6` of `allocator/mod.rs` claim from.

A subscriber has an index, the distance of its address (IPv4) or of the word behind its
prefix (IPv6) from the base. The index picks a pool address and a block of ports on it by
division, and the reverse function multiplies it back together from the position of the
address in the pool and the block a port falls into. The two families differ only in how
an index is read off an address and put back, so the arithmetic is written once.

The forward side clamps a block to `port_high`; the reverse side does not know
`port_high`, and relies on `blocks_per_ip` counting the whole blocks of the range.
-/
import Mathlib

set_option autoImplicit false

namespace Xpf.DeterministicNat

/-- `u32::from(Ipv4Addr)`. -/
abbrev Ipv4Addr := UInt32

/-- The octets of an `Ipv6Addr`. -/
abbrev Ipv6Octets := Fin 16 → UInt8

/-! ## The pool -/

/-- What the allocator keeps of a deterministic pool: its external addresses, the port
range, and an occupancy table for (at least) every address. -/
structure DeterministicPool where
  poolV4 : List Ipv4Addr
  portLow : UInt16
  portHigh : UInt16
  occupancyLen : ℕ
  nodup : poolV4.Nodup
  covered : poolV4.length ≤ occupancyLen

/-- `PoolReverseIndex`, a hash map. -/
abbrev PoolReverseIndex := List (Ipv4Addr × UInt32)

/-- `build_pool_reverse_index`: the first position of an address wins. -/
def buildPoolReverseIndex (poolV4 : List Ipv4Addr) : PoolReverseIndex :=
  poolV4.zipIdx.foldl (fun index t =>
    if (index.lookup t.1).isSome then index else index ++ [(t.1, UInt32.ofNat t.2)]) []

/-! ## Indices -/

/-- The parameters both modes share: `block_size`, `blocks_per_ip`, `host_count`. -/
structure BlockParams where
  blockSize : UInt16
  blocksPerIp : UInt16
  hostCount : UInt32

/-- The common part of `deterministic_indices_v4` and `_v6`, on the subscriber's word and
the base's. -/
def deterministicIndices (params : BlockParams) (srcWord baseWord : ℕ) : Option (ℕ × ℕ) :=
  if params.blocksPerIp = 0 ∨ params.blockSize = 0 then none
  else if srcWord < baseWord then none
  else
    let subIdx := srcWord - baseWord
    if params.hostCount.toNat ≤ subIdx then none
    else some (subIdx / params.blocksPerIp.toNat, subIdx % params.blocksPerIp.toNat)

/-- A `u32` result, if it is one. -/
def checkedU32 (n : ℕ) : Option ℕ := if n < 2 ^ 32 then some n else none

/-- The common part of `reverse_deterministic_v4` and `_v6`: the subscriber's index. -/
def reverseIndex (params : BlockParams) (poolIndex : PoolReverseIndex) (portLow : UInt16)
    (translatedIp : Ipv4Addr) (translatedPort : UInt16) : Option ℕ :=
  if params.blockSize = 0 then none
  else do
    let ipIdx ← poolIndex.lookup translatedIp
    if translatedPort < portLow then none
    else
      let offset := translatedPort.toNat - portLow.toNat
      let blockIdx := offset / params.blockSize.toNat
      if params.blocksPerIp.toNat ≤ blockIdx then none
      else
        let first ← checkedU32 (ipIdx.toNat * params.blocksPerIp.toNat)
        let subIdx ← checkedU32 (first + blockIdx)
        if params.hostCount.toNat ≤ subIdx then none else some subIdx

/-- The failures of `allocate_deterministic_v4` and `_v6` in front of the claim. -/
inductive SourceNatFailureReason where
  | invalidPortRange
  | deterministicSubscriberOutOfRange
  | allocatorExhausted
deriving DecidableEq

/-- The external address and the ports a subscriber's flows are claimed from. -/
structure Block where
  ip : Ipv4Addr
  portStart : ℕ
  portEnd : ℕ
deriving DecidableEq

/-- The block of a subscriber with the given indices. -/
def blockAt (pool : DeterministicPool) (params : BlockParams) (indices : Option (ℕ × ℕ)) :
    Except SourceNatFailureReason Block :=
  if pool.portLow = 0 ∨ pool.portHigh = 0 ∨ pool.portHigh < pool.portLow then .error .invalidPortRange
  else
    match indices with
    | none => .error .deterministicSubscriberOutOfRange
    | some (ipIdx, blockIdx) =>
      match pool.poolV4[ipIdx]? with
      | none => .error .allocatorExhausted
      | some ip =>
        if pool.occupancyLen ≤ ipIdx then .error .allocatorExhausted
        else
          let portStart := pool.portLow.toNat + blockIdx * params.blockSize.toNat
          if pool.portHigh.toNat < portStart then .error .allocatorExhausted
          else .ok ⟨ip, portStart, min (portStart + params.blockSize.toNat - 1) pool.portHigh.toNat⟩

/-- An external address and port lie in the block. -/
def Block.Holds (b : Block) (ip : Ipv4Addr) (port : UInt16) : Prop :=
  ip = b.ip ∧ b.portStart ≤ port.toNat ∧ port.toNat ≤ b.portEnd

/-! ## Mode 1: IPv4 subscribers -/

/-- `DeterministicV4`. -/
structure DeterministicV4 extends BlockParams where
  hostBase : UInt32

/-- `deterministic_indices_v4`. -/
def deterministicIndicesV4 (params : DeterministicV4) (src : Ipv4Addr) : Option (ℕ × ℕ) :=
  deterministicIndices params.toBlockParams src.toNat params.hostBase.toNat

/-- The block `allocate_deterministic_v4` claims from. -/
def blockV4 (pool : DeterministicPool) (params : DeterministicV4) (src : Ipv4Addr) :
    Except SourceNatFailureReason Block :=
  blockAt pool params.toBlockParams (deterministicIndicesV4 params src)

/-- `reverse_deterministic_v4`. -/
def reverseDeterministicV4 (params : DeterministicV4) (poolIndex : PoolReverseIndex)
    (portLow : UInt16) (translatedIp : Ipv4Addr) (translatedPort : UInt16) : Option Ipv4Addr := do
  let subIdx ← reverseIndex params.toBlockParams poolIndex portLow translatedIp translatedPort
  let host ← checkedU32 (params.hostBase.toNat + subIdx)
  some (UInt32.ofNat host)

/-! ## Mode 2: IPv6 subscribers -/

/-- `DeterministicV6`. -/
structure DeterministicV6 extends BlockParams where
  hostPrefixLen : UInt8
  hostBase : Ipv6Octets

/-- `deterministic_v6_word_offset`. -/
def deterministicV6WordOffset (hostPrefixLen : UInt8) : Fin 13 := if hostPrefixLen = 64 then 8 else 4

/-- `u32::from_be_bytes` of the four octets at `off`. -/
def wordAt (octets : Ipv6Octets) (off : Fin 13) : ℕ :=
  (octets ⟨off, by omega⟩).toNat * 2 ^ 24 + (octets ⟨off + 1, by omega⟩).toNat * 2 ^ 16
    + (octets ⟨off + 2, by omega⟩).toNat * 2 ^ 8 + (octets ⟨off + 3, by omega⟩).toNat

/-- `to_be_bytes` of a word, copied over the four octets at `off`. -/
def setWord (octets : Ipv6Octets) (off : Fin 13) (word : ℕ) : Ipv6Octets := fun i =>
  if i.val = off.val then UInt8.ofNat (word / 2 ^ 24)
  else if i.val = off.val + 1 then UInt8.ofNat (word / 2 ^ 16)
  else if i.val = off.val + 2 then UInt8.ofNat (word / 2 ^ 8)
  else if i.val = off.val + 3 then UInt8.ofNat word
  else octets i

/-- The octets in front of `off` agree. -/
def samePrefix (a b : Ipv6Octets) (off : Fin 13) : Bool := decide (∀ i : Fin 16, i.val < off.val → a i = b i)

/-- `deterministic_indices_v6`. -/
def deterministicIndicesV6 (params : DeterministicV6) (src : Ipv6Octets) : Option (ℕ × ℕ) :=
  let off := deterministicV6WordOffset params.hostPrefixLen
  if !samePrefix src params.hostBase off then none
  else deterministicIndices params.toBlockParams (wordAt src off) (wordAt params.hostBase off)

/-- The block `allocate_deterministic_v6_at` claims from. -/
def blockV6 (pool : DeterministicPool) (params : DeterministicV6) (src : Ipv6Octets) :
    Except SourceNatFailureReason Block :=
  blockAt pool params.toBlockParams (deterministicIndicesV6 params src)

/-- `reverse_deterministic_v6`. -/
def reverseDeterministicV6 (params : DeterministicV6) (poolIndex : PoolReverseIndex)
    (portLow : UInt16) (translatedIp : Ipv4Addr) (translatedPort : UInt16) : Option Ipv6Octets := do
  let subIdx ← reverseIndex params.toBlockParams poolIndex portLow translatedIp translatedPort
  let off := deterministicV6WordOffset params.hostPrefixLen
  let subWord ← checkedU32 (wordAt params.hostBase off + subIdx)
  some (setWord params.hostBase off subWord)

/-! ## The reverse index -/

/-- Whatever has been inserted stays, and an address is inserted at its first position. -/
theorem lookup_fold (addr : Ipv4Addr) : ∀ (todo : List (Ipv4Addr × ℕ)) (index : PoolReverseIndex),
    (todo.foldl (fun index t =>
        if (index.lookup t.1).isSome then index else index ++ [(t.1, UInt32.ofNat t.2)]) index).lookup addr
      = (index.lookup addr).or ((todo.lookup addr).map UInt32.ofNat) := by
  intro todo
  induction todo with
  | nil => simp
  | cons t todo ih =>
    intro index
    rw [List.foldl_cons, ih, List.lookup_cons]
    by_cases haddr : addr = t.1
    · subst haddr
      rw [beq_self_eq_true]
      cases hseen : index.lookup t.1 with
      | some idx => simp [hseen]
      | none => simp [hseen, List.lookup_append]
    · rw [beq_false_of_ne haddr]
      split_ifs
      · rfl
      · rw [List.lookup_append, List.lookup_cons, beq_false_of_ne haddr]
        simp

theorem lookup_zipIdx {pool : List Ipv4Addr} (hnodup : pool.Nodup) (addr : Ipv4Addr) :
    ∀ k j, (pool.zipIdx k).lookup addr = some j ↔ ∃ i, pool[i]? = some addr ∧ j = k + i := by
  induction pool with
  | nil => simp
  | cons a pool ih =>
    intro k j
    obtain ⟨ha, hnodup⟩ := List.nodup_cons.mp hnodup
    rw [List.zipIdx_cons, List.lookup_cons]
    by_cases haddr : addr = a
    · subst haddr
      rw [beq_self_eq_true]
      constructor
      · intro h
        exact ⟨0, rfl, (Option.some.inj h).symm⟩
      · rintro ⟨i, hi, rfl⟩
        cases i with
        | zero => rfl
        | succ i =>
          rw [List.getElem?_cons_succ] at hi
          exact absurd (List.mem_of_getElem? hi) ha
    · rw [beq_false_of_ne haddr]
      dsimp only
      rw [ih hnodup]
      constructor
      · rintro ⟨i, hi, rfl⟩
        exact ⟨i + 1, hi, by omega⟩
      · rintro ⟨i, hi, rfl⟩
        cases i with
        | zero => exact absurd (Option.some.inj hi).symm haddr
        | succ i => exact ⟨i, hi, by omega⟩

/-- A pool without duplicates has at most `2^32` addresses, so no position is cut off. -/
theorem position_lt {pool : List Ipv4Addr} (hnodup : pool.Nodup) {i : ℕ} {addr : Ipv4Addr}
    (h : pool[i]? = some addr) : i < 2 ^ 32 := by
  have hmap : (pool.map UInt32.toNat).Nodup :=
    hnodup.map fun a b hab => UInt32.toNat_inj.mp hab
  have hsub : pool.map UInt32.toNat ⊆ List.range (2 ^ 32) := by
    intro n hn
    obtain ⟨a, -, rfl⟩ := List.mem_map.mp hn
    exact List.mem_range.mpr (UInt32.toNat_lt a)
  have hlen := (List.subperm_of_subset hmap hsub).length_le
  rw [List.length_map, List.length_range] at hlen
  have hi := (List.getElem?_eq_some_iff.mp h).1
  omega

/-- **The reverse index** gives the position of an address in the pool. -/
theorem lookup_poolIndex {pool : List Ipv4Addr} (hnodup : pool.Nodup) (addr : Ipv4Addr) (idx : UInt32) :
    (buildPoolReverseIndex pool).lookup addr = some idx ↔ pool[idx.toNat]? = some addr := by
  rw [buildPoolReverseIndex, lookup_fold, List.lookup_nil, Option.none_or, Option.map_eq_some_iff]
  constructor
  · rintro ⟨j, hj, rfl⟩
    obtain ⟨i, hi, rfl⟩ := (lookup_zipIdx hnodup addr 0 j).mp hj
    rw [Nat.zero_add, UInt32.toNat_ofNat_of_lt' (position_lt hnodup hi)]
    exact hi
  · intro h
    refine ⟨idx.toNat, (lookup_zipIdx hnodup addr 0 _).mpr ⟨idx.toNat, h, by omega⟩, ?_⟩
    exact UInt32.ofNat_toNat

/-! ## The arithmetic -/

theorem checkedU32_eq_some {n m : ℕ} : checkedU32 n = some m ↔ n < 2 ^ 32 ∧ n = m := by
  rw [checkedU32]
  split_ifs with h
  · exact ⟨fun heq => ⟨h, Option.some.inj heq⟩, fun heq => congrArg some heq.2⟩
  · exact ⟨fun heq => absurd heq (by simp), fun heq => absurd heq.1 h⟩

theorem toNat_pos {n : UInt16} (h : n ≠ 0) : 0 < n.toNat :=
  Nat.pos_of_ne_zero fun h0 => h (UInt16.toNat_inj.mp h0)

/-- What the forward indices are. -/
theorem deterministicIndices_eq_some {params : BlockParams} {srcWord baseWord ipIdx blockIdx : ℕ} :
    deterministicIndices params srcWord baseWord = some (ipIdx, blockIdx)
      ↔ params.blockSize ≠ 0 ∧ blockIdx < params.blocksPerIp.toNat
        ∧ srcWord = baseWord + (ipIdx * params.blocksPerIp.toNat + blockIdx)
        ∧ ipIdx * params.blocksPerIp.toNat + blockIdx < params.hostCount.toNat := by
  have hzero : params.blocksPerIp = 0 ↔ params.blocksPerIp.toNat = 0 := UInt16.toNat_inj.symm
  rw [deterministicIndices]
  constructor
  · intro h
    split_ifs at h with hbad hlow
    dsimp only at h
    split_ifs at h with hhigh
    obtain ⟨rfl, rfl⟩ := Prod.mk.inj (Option.some.inj h)
    push Not at hbad
    have hbpi : 0 < params.blocksPerIp.toNat := toNat_pos hbad.1
    have hdiv := Nat.div_add_mod' (srcWord - baseWord) params.blocksPerIp.toNat
    exact ⟨hbad.2, Nat.mod_lt _ hbpi, by omega, by omega⟩
  · rintro ⟨hsize, hblock, hsrc, hcount⟩
    have hbpi : params.blocksPerIp ≠ 0 := fun h0 => by rw [hzero] at h0; omega
    rw [if_neg (by simp [hbpi, hsize]), if_neg (by omega)]
    dsimp only
    rw [show srcWord - baseWord = ipIdx * params.blocksPerIp.toNat + blockIdx by omega,
      if_neg (by omega)]
    have hpos : 0 < params.blocksPerIp.toNat := by omega
    rw [Nat.mul_comm, Nat.mul_add_div hpos, Nat.mul_add_mod, Nat.div_eq_of_lt hblock,
      Nat.mod_eq_of_lt hblock, Nat.add_zero]

/-- What the reverse function resolves to an index. -/
theorem reverseIndex_eq_some {params : BlockParams} {pool : List Ipv4Addr} (hnodup : pool.Nodup)
    {portLow : UInt16} {ip : Ipv4Addr} {port : UInt16} {subIdx : ℕ} :
    reverseIndex params (buildPoolReverseIndex pool) portLow ip port = some subIdx
      ↔ ∃ ipIdx blockIdx, pool[ipIdx]? = some ip ∧ params.blockSize ≠ 0
        ∧ portLow.toNat + blockIdx * params.blockSize.toNat ≤ port.toNat
        ∧ port.toNat < portLow.toNat + (blockIdx + 1) * params.blockSize.toNat
        ∧ blockIdx < params.blocksPerIp.toNat
        ∧ subIdx = ipIdx * params.blocksPerIp.toNat + blockIdx ∧ subIdx < params.hostCount.toNat := by
  rw [reverseIndex]
  constructor
  · intro h
    by_cases hsize : params.blockSize = 0
    · rw [if_pos hsize] at h
      cases h
    by_cases hlow : port < portLow
    · simp [hsize, hlow] at h
    rw [if_neg hsize, Option.bind_eq_bind, Option.bind_eq_some_iff] at h
    obtain ⟨idx, hidx, h⟩ := h
    rw [if_neg hlow] at h
    dsimp only at h
    split_ifs at h with hblock
    rw [Option.bind_eq_bind, Option.bind_eq_some_iff] at h
    obtain ⟨first, hfirst, h⟩ := h
    rw [Option.bind_eq_some_iff] at h
    obtain ⟨total, htotal, h⟩ := h
    split_ifs at h with hcount
    obtain ⟨-, rfl⟩ := checkedU32_eq_some.mp hfirst
    obtain ⟨-, rfl⟩ := checkedU32_eq_some.mp htotal
    obtain rfl := Option.some.inj h
    have hle : portLow.toNat ≤ port.toNat := UInt16.le_iff_toNat_le.mp (UInt16.not_lt.mp hlow)
    have hpos : 0 < params.blockSize.toNat := toNat_pos hsize
    have hdown := Nat.div_mul_le_self (port.toNat - portLow.toNat) params.blockSize.toNat
    have hup := Nat.lt_mul_of_div_lt (Nat.lt_succ_self ((port.toNat - portLow.toNat) / params.blockSize.toNat)) hpos
    rw [Nat.succ_eq_add_one] at hup
    refine ⟨idx.toNat, _, (lookup_poolIndex hnodup ip idx).mp hidx, hsize, ?_, ?_, Nat.not_le.mp hblock,
      rfl, Nat.not_le.mp hcount⟩
    · omega
    · omega
  · rintro ⟨ipIdx, blockIdx, hip, hsize, hlow, hhigh, hblock, rfl, hcount⟩
    have hidx : (buildPoolReverseIndex pool).lookup ip = some (UInt32.ofNat ipIdx) := by
      rw [lookup_poolIndex hnodup, UInt32.toNat_ofNat_of_lt' (position_lt hnodup hip)]
      exact hip
    have hnlow : ¬ port < portLow := by
      rw [UInt16.lt_iff_toNat_lt]
      omega
    have hdiv : (port.toNat - portLow.toNat) / params.blockSize.toNat = blockIdx := by
      apply Nat.div_eq_of_lt_le
      · omega
      · omega
    have htotal := Nat.lt_trans hcount (UInt32.toNat_lt params.hostCount)
    rw [if_neg hsize, hidx]
    simp only [Option.bind_eq_bind, Option.bind_some]
    rw [if_neg hnlow, hdiv, if_neg (by omega), UInt32.toNat_ofNat_of_lt' (position_lt hnodup hip),
      checkedU32_eq_some.mpr ⟨by omega, rfl⟩, Option.bind_some, checkedU32_eq_some.mpr ⟨htotal, rfl⟩,
      Option.bind_some, if_neg (by omega)]

/-! ## Blocks -/

/-- A port range the allocator accepts. -/
def DeterministicPool.ValidRange (pool : DeterministicPool) : Prop :=
  pool.portLow ≠ 0 ∧ pool.portLow ≤ pool.portHigh

/-- The allocator may hand out an address and port: it finds a block, and they lie in it. -/
def HandsOut (block : Except SourceNatFailureReason Block) (ip : Ipv4Addr) (port : UInt16) : Prop :=
  ∃ b, block = .ok b ∧ b.Holds ip port

/-- What the block of a pair of indices holds: the ports of the block, up to `port_high`. -/
theorem handsOut_blockAt {pool : DeterministicPool} {params : BlockParams} (hsize : params.blockSize ≠ 0)
    {indices : Option (ℕ × ℕ)} {ip : Ipv4Addr} {port : UInt16} :
    HandsOut (blockAt pool params indices) ip port
      ↔ pool.ValidRange ∧ ∃ ipIdx blockIdx, indices = some (ipIdx, blockIdx)
        ∧ pool.poolV4[ipIdx]? = some ip
        ∧ pool.portLow.toNat + blockIdx * params.blockSize.toNat ≤ port.toNat
        ∧ port.toNat < pool.portLow.toNat + (blockIdx + 1) * params.blockSize.toNat
        ∧ port ≤ pool.portHigh := by
  have hpos := toNat_pos hsize
  have hvalid : ¬ (pool.portLow = 0 ∨ pool.portHigh = 0 ∨ pool.portHigh < pool.portLow) ↔ pool.ValidRange := by
    rw [DeterministicPool.ValidRange]
    grind
  have hsucc : ∀ n, (n + 1) * params.blockSize.toNat = n * params.blockSize.toNat + params.blockSize.toNat :=
    fun n => Nat.succ_mul n _
  unfold HandsOut blockAt
  constructor
  · rintro ⟨b, hb, hip, hstart, hend⟩
    split_ifs at hb with hrange
    refine ⟨hvalid.mp hrange, ?_⟩
    cases indices with
    | none => cases hb
    | some t =>
      obtain ⟨ipIdx, blockIdx⟩ := t
      dsimp only at hb
      cases hat : pool.poolV4[ipIdx]? with
      | none =>
        rw [hat] at hb
        cases hb
      | some addr =>
        rw [hat] at hb
        dsimp only at hb
        split_ifs at hb
        cases hb
        dsimp only at hip hstart hend
        refine ⟨ipIdx, blockIdx, rfl, hat.trans (congrArg some hip.symm), hstart, ?_, ?_⟩
        · rw [hsucc]
          omega
        · rw [UInt16.le_iff_toNat_le]
          omega
  · rintro ⟨hrange, ipIdx, blockIdx, rfl, hat, hstart, hend, hhigh⟩
    rw [if_neg (hvalid.mpr hrange)]
    dsimp only
    rw [hat]
    dsimp only
    have hlen := (List.getElem?_eq_some_iff.mp hat).1
    have hcovered := pool.covered
    rw [UInt16.le_iff_toNat_le] at hhigh
    rw [hsucc] at hend
    rw [if_neg (by omega), if_neg (by omega)]
    refine ⟨_, rfl, rfl, hstart, ?_⟩
    dsimp only
    omega

theorem not_handsOut_none (pool : DeterministicPool) (params : BlockParams) (ip : Ipv4Addr) (port : UInt16) :
    ¬ HandsOut (blockAt pool params none) ip port := by
  rintro ⟨b, hb, -⟩
  unfold blockAt at hb
  split_ifs at hb

/-- **One index for both directions**: the allocator may hand a subscriber an address and
port exactly if the reverse function resolves them to that subscriber's index and the port
is in the range. -/
theorem handsOut_iff_reverseIndex {pool : DeterministicPool} {params : BlockParams} {srcWord baseWord : ℕ}
    {ip : Ipv4Addr} {port : UInt16} :
    HandsOut (blockAt pool params (deterministicIndices params srcWord baseWord)) ip port
      ↔ pool.ValidRange ∧ port ≤ pool.portHigh ∧ ∃ subIdx, srcWord = baseWord + subIdx
        ∧ reverseIndex params (buildPoolReverseIndex pool.poolV4) pool.portLow ip port = some subIdx := by
  by_cases hsize : params.blockSize = 0
  · have hnone : deterministicIndices params srcWord baseWord = none := by
      rw [deterministicIndices, if_pos (Or.inr hsize)]
    have hrev : reverseIndex params (buildPoolReverseIndex pool.poolV4) pool.portLow ip port = none := by
      rw [reverseIndex, if_pos hsize]
    rw [hnone, hrev]
    refine iff_of_false (not_handsOut_none pool params ip port) ?_
    rintro ⟨-, -, subIdx, -, h⟩
    cases h
  rw [handsOut_blockAt hsize]
  constructor
  · rintro ⟨hrange, ipIdx, blockIdx, hindices, hat, hstart, hend, hhigh⟩
    obtain ⟨-, hblock, hsrc, hcount⟩ := deterministicIndices_eq_some.mp hindices
    exact ⟨hrange, hhigh, _, hsrc, (reverseIndex_eq_some pool.nodup).mpr
      ⟨ipIdx, blockIdx, hat, hsize, hstart, hend, hblock, rfl, hcount⟩⟩
  · rintro ⟨hrange, hhigh, subIdx, hsrc, hrev⟩
    obtain ⟨ipIdx, blockIdx, hat, -, hstart, hend, hblock, rfl, hcount⟩ :=
      (reverseIndex_eq_some pool.nodup).mp hrev
    exact ⟨hrange, ipIdx, blockIdx, deterministicIndices_eq_some.mpr ⟨hsize, hblock, hsrc, hcount⟩, hat,
      hstart, hend, hhigh⟩

/-! ## IPv4 subscribers -/

theorem handsOut_blockV4 {pool : DeterministicPool} {params : DeterministicV4} {src ip : Ipv4Addr}
    {port : UInt16} :
    HandsOut (blockV4 pool params src) ip port
      ↔ pool.ValidRange ∧ port ≤ pool.portHigh
        ∧ reverseDeterministicV4 params (buildPoolReverseIndex pool.poolV4) pool.portLow ip port = some src := by
  rw [blockV4, deterministicIndicesV4, handsOut_iff_reverseIndex]
  refine and_congr_right fun _ => and_congr_right fun _ => ?_
  rw [reverseDeterministicV4, Option.bind_eq_bind, Option.bind_eq_some_iff]
  constructor
  · rintro ⟨subIdx, hsrc, hrev⟩
    refine ⟨subIdx, hrev, ?_⟩
    have hlt : params.hostBase.toNat + subIdx < 2 ^ 32 := hsrc ▸ UInt32.toNat_lt src
    rw [checkedU32_eq_some.mpr ⟨hlt, rfl⟩, ← hsrc]
    exact congrArg some UInt32.ofNat_toNat
  · rintro ⟨subIdx, hrev, h⟩
    rw [Option.bind_eq_some_iff] at h
    obtain ⟨host, hhost, h⟩ := h
    obtain ⟨hlt, rfl⟩ := checkedU32_eq_some.mp hhost
    obtain rfl := Option.some.inj h
    exact ⟨subIdx, UInt32.toNat_ofNat_of_lt' hlt, hrev⟩

/-! ## IPv6 subscribers -/

/-- A subscriber's prefix, the unit that is translated: its octets up to and including the
subscriber word, and the base's trailing octets. -/
def subscriberPrefix (params : DeterministicV6) (src : Ipv6Octets) : Ipv6Octets := fun i =>
  if i.val < (deterministicV6WordOffset params.hostPrefixLen).val + 4 then src i else params.hostBase i

theorem wordAt_lt (octets : Ipv6Octets) (off : Fin 13) : wordAt octets off < 2 ^ 32 := by
  unfold wordAt
  have h0 := (octets ⟨off, by omega⟩).toNat_lt
  have h1 := (octets ⟨off + 1, by omega⟩).toNat_lt
  have h2 := (octets ⟨off + 2, by omega⟩).toNat_lt
  have h3 := (octets ⟨off + 3, by omega⟩).toNat_lt
  omega

/-- An octet is the low byte of a number that ends in it. -/
theorem ofNat_eq_octet {n q : ℕ} {b : UInt8} (h : n = q * 2 ^ 8 + b.toNat) : UInt8.ofNat n = b := by
  apply UInt8.toNat_inj.mp
  have hb := b.toNat_lt
  rw [UInt8.toNat_ofNat', h]
  omega

theorem wordAt_setWord (base : Ipv6Octets) (off : Fin 13) {word : ℕ} (h : word < 2 ^ 32) :
    wordAt (setWord base off word) off = word := by
  simp [wordAt, setWord]
  omega

/-- The word of an address in the prefix, put over the base, gives the address's prefix. -/
theorem setWord_wordAt {base src : Ipv6Octets} {off : Fin 13} (h : samePrefix src base off = true) (i : Fin 16) :
    setWord base off (wordAt src off) i = if i.val < off.val + 4 then src i else base i := by
  have hpre : ∀ i : Fin 16, i.val < off.val → src i = base i := of_decide_eq_true h
  have h0 := (src ⟨off, by omega⟩).toNat_lt
  have h1 := (src ⟨off + 1, by omega⟩).toNat_lt
  have h2 := (src ⟨off + 2, by omega⟩).toNat_lt
  have h3 := (src ⟨off + 3, by omega⟩).toNat_lt
  unfold setWord
  by_cases hi : i.val < off.val
  · rw [if_neg (by omega), if_neg (by omega), if_neg (by omega), if_neg (by omega), if_pos (by omega), hpre i hi]
  by_cases hi4 : off.val + 4 ≤ i.val
  · rw [if_neg (by omega), if_neg (by omega), if_neg (by omega), if_neg (by omega), if_neg (by omega)]
  rw [if_pos (show i.val < off.val + 4 by omega)]
  split_ifs with e0 e1 e2 e3
  · rw [show src i = src ⟨off, by omega⟩ from congrArg src (Fin.ext e0)]
    refine ofNat_eq_octet (show _ = 0 * 2 ^ 8 + _ from ?_)
    unfold wordAt
    omega
  · rw [show src i = src ⟨off + 1, by omega⟩ from congrArg src (Fin.ext e1)]
    refine ofNat_eq_octet (show _ = (src ⟨off, by omega⟩).toNat * 2 ^ 8 + _ from ?_)
    unfold wordAt
    omega
  · rw [show src i = src ⟨off + 2, by omega⟩ from congrArg src (Fin.ext e2)]
    refine ofNat_eq_octet (show _ = (wordAt src off / 2 ^ 16) * 2 ^ 8 + _ from ?_)
    unfold wordAt
    omega
  · rw [show src i = src ⟨off + 3, by omega⟩ from congrArg src (Fin.ext e3)]
    refine ofNat_eq_octet (show _ = (wordAt src off / 2 ^ 8) * 2 ^ 8 + _ from ?_)
    unfold wordAt
    omega
  · omega

theorem subscriberPrefix_eq_setWord {params : DeterministicV6} {src : Ipv6Octets}
    (h : samePrefix src params.hostBase (deterministicV6WordOffset params.hostPrefixLen) = true) :
    subscriberPrefix params src = setWord params.hostBase (deterministicV6WordOffset params.hostPrefixLen)
      (wordAt src (deterministicV6WordOffset params.hostPrefixLen)) := by
  funext i
  rw [setWord_wordAt h, subscriberPrefix]

theorem samePrefix_setWord (base : Ipv6Octets) (off : Fin 13) (word : ℕ) :
    samePrefix (setWord base off word) base off = true := by
  apply decide_eq_true
  intro i hi
  unfold setWord
  rw [if_neg (by omega), if_neg (by omega), if_neg (by omega), if_neg (by omega)]

theorem handsOut_blockV6 {pool : DeterministicPool} {params : DeterministicV6} {src : Ipv6Octets}
    {ip : Ipv4Addr} {port : UInt16} :
    HandsOut (blockV6 pool params src) ip port
      ↔ pool.ValidRange ∧ port ≤ pool.portHigh
        ∧ samePrefix src params.hostBase (deterministicV6WordOffset params.hostPrefixLen) = true
        ∧ reverseDeterministicV6 params (buildPoolReverseIndex pool.poolV4) pool.portLow ip port
          = some (subscriberPrefix params src) := by
  unfold blockV6 deterministicIndicesV6
  dsimp only
  generalize hoff : deterministicV6WordOffset params.hostPrefixLen = off
  cases hsame : samePrefix src params.hostBase off with
  | false =>
    refine iff_of_false (not_handsOut_none pool params.toBlockParams ip port) ?_
    rintro ⟨-, -, h, -⟩
    cases h
  | true =>
    rw [Bool.not_true, if_neg Bool.false_ne_true, handsOut_iff_reverseIndex]
    refine and_congr_right fun _ => and_congr_right fun _ => ?_
    rw [eq_self_iff_true, true_and, subscriberPrefix_eq_setWord (hoff.symm ▸ hsame), hoff]
    unfold reverseDeterministicV6
    rw [Option.bind_eq_bind, Option.bind_eq_some_iff]
    dsimp only
    rw [hoff]
    constructor
    · rintro ⟨subIdx, hsrc, hrev⟩
      refine ⟨subIdx, hrev, ?_⟩
      rw [← hsrc, checkedU32_eq_some.mpr ⟨wordAt_lt src off, rfl⟩]
      rfl
    · rintro ⟨subIdx, hrev, h⟩
      rw [Option.bind_eq_some_iff] at h
      obtain ⟨subWord, hword, h⟩ := h
      obtain ⟨hlt, rfl⟩ := checkedU32_eq_some.mp hword
      refine ⟨subIdx, ?_, hrev⟩
      -- both words are read back from the same address
      have hread : wordAt (setWord params.hostBase off _) off = wordAt (setWord params.hostBase off _) off :=
        congrArg (fun octets => wordAt octets off) (Option.some.inj h)
      rw [wordAt_setWord _ _ hlt, wordAt_setWord _ _ (wordAt_lt src off)] at hread
      exact hread.symm

/-- A resolved address is its own prefix, in the configured one. -/
theorem reverseDeterministicV6_self {params : DeterministicV6} {poolIndex : PoolReverseIndex} {portLow : UInt16}
    {ip : Ipv4Addr} {port : UInt16} {src : Ipv6Octets}
    (h : reverseDeterministicV6 params poolIndex portLow ip port = some src) :
    samePrefix src params.hostBase (deterministicV6WordOffset params.hostPrefixLen) = true
      ∧ subscriberPrefix params src = src := by
  unfold reverseDeterministicV6 at h
  rw [Option.bind_eq_bind, Option.bind_eq_some_iff] at h
  obtain ⟨subIdx, -, h⟩ := h
  dsimp only at h
  rw [Option.bind_eq_some_iff] at h
  obtain ⟨subWord, hword, h⟩ := h
  obtain ⟨hlt, rfl⟩ := checkedU32_eq_some.mp hword
  obtain rfl := Option.some.inj h
  have hsame := samePrefix_setWord params.hostBase (deterministicV6WordOffset params.hostPrefixLen)
    (wordAt params.hostBase (deterministicV6WordOffset params.hostPrefixLen) + subIdx)
  refine ⟨hsame, ?_⟩
  rw [subscriberPrefix_eq_setWord hsame, wordAt_setWord _ _ hlt]

/-! ## Reversibility -/

/-- The blocks of one address fit into the port range, as they do for
`blocks_per_ip = (port_high - port_low + 1) / block_size`. -/
def BlockParams.FitsRange (params : BlockParams) (pool : DeterministicPool) : Prop :=
  params.blocksPerIp.toNat * params.blockSize.toNat ≤ pool.portHigh.toNat - pool.portLow.toNat + 1

/-- If the blocks fit, nothing above the range is resolved. -/
theorem reverseIndex_le_portHigh {pool : DeterministicPool} {params : BlockParams} (hrange : pool.ValidRange)
    (hfits : params.FitsRange pool) {ip : Ipv4Addr} {port : UInt16} {subIdx : ℕ}
    (h : reverseIndex params (buildPoolReverseIndex pool.poolV4) pool.portLow ip port = some subIdx) :
    port ≤ pool.portHigh := by
  obtain ⟨ipIdx, blockIdx, -, -, -, hend, hblock, -, -⟩ := (reverseIndex_eq_some pool.nodup).mp h
  have hmul : (blockIdx + 1) * params.blockSize.toNat ≤ params.blocksPerIp.toNat * params.blockSize.toNat :=
    Nat.mul_le_mul_right params.blockSize.toNat hblock
  have hle := UInt16.le_iff_toNat_le.mp hrange.2
  rw [BlockParams.FitsRange] at hfits
  rw [UInt16.le_iff_toNat_le]
  omega

/-- **Deterministic NAT is reversible.** For every pool and all parameters, the reverse
function maps whatever the allocator may hand a subscriber back to that subscriber (to its
prefix, for IPv6), subscribers with different indices share no external address and port,
and what it resolves lies in the block of the subscriber it returns, for the ports of the
range, and for all ports if the blocks of one address fit into it. -/
theorem deterministicNat_reversible (pool : DeterministicPool) :
    (∀ (params : DeterministicV4) (src ip : Ipv4Addr) (port : UInt16),
      HandsOut (blockV4 pool params src) ip port →
        reverseDeterministicV4 params (buildPoolReverseIndex pool.poolV4) pool.portLow ip port = some src)
    ∧ (∀ (params : DeterministicV6) (src : Ipv6Octets) (ip : Ipv4Addr) (port : UInt16),
      HandsOut (blockV6 pool params src) ip port →
        reverseDeterministicV6 params (buildPoolReverseIndex pool.poolV4) pool.portLow ip port
          = some (subscriberPrefix params src))
    ∧ (∀ (params : DeterministicV4) (src src' ip : Ipv4Addr) (port : UInt16),
      deterministicIndicesV4 params src ≠ deterministicIndicesV4 params src' →
        ¬ (HandsOut (blockV4 pool params src) ip port ∧ HandsOut (blockV4 pool params src') ip port))
    ∧ (∀ (params : DeterministicV6) (src src' : Ipv6Octets) (ip : Ipv4Addr) (port : UInt16),
      deterministicIndicesV6 params src ≠ deterministicIndicesV6 params src' →
        ¬ (HandsOut (blockV6 pool params src) ip port ∧ HandsOut (blockV6 pool params src') ip port))
    ∧ (∀ (params : DeterministicV4) (src ip : Ipv4Addr) (port : UInt16), pool.ValidRange →
      (port ≤ pool.portHigh ∨ params.FitsRange pool) →
        reverseDeterministicV4 params (buildPoolReverseIndex pool.poolV4) pool.portLow ip port = some src →
          HandsOut (blockV4 pool params src) ip port)
    ∧ (∀ (params : DeterministicV6) (src : Ipv6Octets) (ip : Ipv4Addr) (port : UInt16), pool.ValidRange →
      (port ≤ pool.portHigh ∨ params.FitsRange pool) →
        reverseDeterministicV6 params (buildPoolReverseIndex pool.poolV4) pool.portLow ip port = some src →
          HandsOut (blockV6 pool params src) ip port) := by
  refine ⟨?_, ?_, ?_, ?_, ?_, ?_⟩
  · intro params src ip port h
    exact (handsOut_blockV4.mp h).2.2
  · intro params src ip port h
    exact (handsOut_blockV6.mp h).2.2.2
  · rintro params src src' ip port hne ⟨h, h'⟩
    have heq : some src = some src' := (handsOut_blockV4.mp h).2.2.symm.trans (handsOut_blockV4.mp h').2.2
    exact hne (congrArg _ (Option.some.inj heq))
  · rintro params src src' ip port hne ⟨h, h'⟩
    obtain ⟨-, -, hsame, hrev⟩ := handsOut_blockV6.mp h
    obtain ⟨-, -, hsame', hrev'⟩ := handsOut_blockV6.mp h'
    have heq : subscriberPrefix params src = subscriberPrefix params src' :=
      Option.some.inj (hrev.symm.trans hrev')
    -- the indices are read off the prefix alone
    rw [subscriberPrefix_eq_setWord hsame, subscriberPrefix_eq_setWord hsame'] at heq
    have hword := congrArg (fun octets => wordAt octets (deterministicV6WordOffset params.hostPrefixLen)) heq
    simp only [wordAt_setWord _ _ (wordAt_lt _ _)] at hword
    apply hne
    unfold deterministicIndicesV6
    dsimp only
    rw [hsame, hsame', hword]
  · intro params src ip port hrange hport hrev
    refine handsOut_blockV4.mpr ⟨hrange, ?_, hrev⟩
    rcases hport with hport | hfits
    · exact hport
    · rw [reverseDeterministicV4, Option.bind_eq_bind, Option.bind_eq_some_iff] at hrev
      obtain ⟨subIdx, hsub, -⟩ := hrev
      exact reverseIndex_le_portHigh hrange hfits hsub
  · intro params src ip port hrange hport hrev
    obtain ⟨hsame, hself⟩ := reverseDeterministicV6_self hrev
    refine handsOut_blockV6.mpr ⟨hrange, ?_, hsame, by rw [hself]; exact hrev⟩
    rcases hport with hport | hfits
    · exact hport
    · rw [reverseDeterministicV6, Option.bind_eq_bind, Option.bind_eq_some_iff] at hrev
      obtain ⟨subIdx, hsub, -⟩ := hrev
      exact reverseIndex_le_portHigh hrange hfits hsub

/-- Two external addresses, ports 1024 to 1123: a block of 64 and a ragged one of 36. -/
def raggedPool : DeterministicPool where
  poolV4 := [0xC6336401, 0xC6336402]
  portLow := 1024
  portHigh := 1123
  occupancyLen := 2
  nodup := by decide
  covered := by decide

/-- Two blocks of 64 to an address, one more than fits, for subscribers from `10.0.0.0`. -/
def raggedParams : DeterministicV4 where
  blockSize := 64
  blocksPerIp := 2
  hostCount := 256
  hostBase := 0x0A000000

/-- The second subscriber's last port resolves to it. -/
theorem deterministicNat_reversible_ragged :
    reverseDeterministicV4 raggedParams (buildPoolReverseIndex raggedPool.poolV4) raggedPool.portLow
        0xC6336401 1123 = some 0x0A000001
      ∧ HandsOut (blockV4 raggedPool raggedParams 0x0A000001) 0xC6336401 1123 := by
  have hrange : raggedPool.ValidRange := ⟨by decide, by decide⟩
  have hrev : reverseDeterministicV4 raggedParams (buildPoolReverseIndex raggedPool.poolV4) raggedPool.portLow
      0xC6336401 1123 = some 0x0A000001 := by decide
  have hout := (deterministicNat_reversible raggedPool).2.2.2.2.1 raggedParams 0x0A000001 0xC6336401 1123
    hrange (Or.inl (by decide)) hrev
  exact ⟨(deterministicNat_reversible raggedPool).1 raggedParams 0x0A000001 0xC6336401 1123 hout, hout⟩

/-- Port 1130 is above the range, so no subscriber has it, and yet it resolves to the
second subscriber: its block is cut off at 1123 in one direction only. -/
theorem reverseDeterministicV4_above_range :
    raggedPool.ValidRange
      ∧ reverseDeterministicV4 raggedParams (buildPoolReverseIndex raggedPool.poolV4) raggedPool.portLow
        0xC6336401 1130 = some 0x0A000001
      ∧ ¬ HandsOut (blockV4 raggedPool raggedParams 0x0A000001) 0xC6336401 1130 := by
  refine ⟨⟨by decide, by decide⟩, by decide, fun h => ?_⟩
  have hhigh := (handsOut_blockV4.mp h).2.1
  exact absurd hhigh (by decide)

end Xpf.DeterministicNat
