/-
The AllowedIPs table of a WireGuard interface: `userspace-dp/src/afxdp/wg/allowed_ips.rs`.

Each family has a hash map for each prefix length, from masked networks to peers. The first
peer to insert a network keeps it, and a lookup probes the lengths from the longest down with
the address masked at each. The networks are parsed by the ipnet crate; of it the table uses
the prefix length and `network`, which is a parameter here with its documented meaning: the
address with its host bits at zero.
-/
import Mathlib
import Xpf.SessionKeys
import Xpf.Tables

set_option autoImplicit false

namespace Xpf.AllowedIps

open Xpf.Tables
open Xpf.Sessions (IpAddr)

/-! ## Networks -/

/-- A network of the ipnet crate: an address, whose host bits may be set, and the length of the
prefix, which its constructor has checked. -/
structure Net (w : ℕ) where
  addr : BitVec w
  prefixLen : ℕ
  valid : prefixLen ≤ w

instance (w : ℕ) : DecidableEq (Net w) := fun a b =>
  decidable_of_iff (a.addr = b.addr ∧ a.prefixLen = b.prefixLen) (by
    obtain ⟨addr, prefixLen, _⟩ := a
    obtain ⟨addr', prefixLen', _⟩ := b
    simp)

/-- `ipnet::IpNet`. -/
inductive IpNet
  | v4 (net : Net 32)
  | v6 (net : Net 128)
  deriving DecidableEq

/-- `network` of the two kinds of networks. -/
structure IpNetCrate where
  networkV4 : Net 32 → BitVec 32
  networkV6 : Net 128 → BitVec 128

/-- The address of the network with its host bits at zero. -/
def ClearsHostBits {w : ℕ} (network : Net w → BitVec w) : Prop :=
  ∀ (net : Net w) (i : ℕ), (network net).getLsbD i = (decide (w - net.prefixLen ≤ i) && net.addr.getLsbD i)

/-- The documented meaning of `network`. -/
structure Documented (crate : IpNetCrate) : Prop where
  v4 : ClearsHostBits crate.networkV4
  v6 : ClearsHostBits crate.networkV6

/-- The network contains the address: they agree on the bits of the prefix. -/
def Net.Contains {w : ℕ} (net : Net w) (addr : BitVec w) : Prop :=
  ∀ i, w - net.prefixLen ≤ i → i < w → net.addr.getLsbD i = addr.getLsbD i

/-! ## The table -/

/-- `FamilyLpm`: a map for each prefix length from zero to the width of an address. -/
structure FamilyLpm (w : ℕ) where
  buckets : List (Table (BitVec w) UInt32)
  size : buckets.length = w + 1

namespace FamilyLpm

variable {w : ℕ}

def default : FamilyLpm w := ⟨List.replicate (w + 1) ∅, List.length_replicate⟩

variable (lpm : FamilyLpm w)

def insert (maskedKey : BitVec w) (prefixLen : ℕ) (peerIndex : UInt32) : FamilyLpm w where
  buckets := lpm.buckets.modify prefixLen fun bucket => orInsert bucket maskedKey peerIndex
  size := (List.length_modify ..).trans lpm.size

/-- The address masked at a length. -/
def masked (addr : BitVec w) (len : ℕ) : BitVec w :=
  if len = 0 then 0 else addr &&& (BitVec.allOnes w <<< (w - len))

/-- The loop over the lengths below `n`, from the longest. -/
def probe (addr : BitVec w) : ℕ → Option UInt32
  | 0 => none
  | len + 1 =>
    let bucket := lpm.buckets.getD len ∅
    if isEmpty bucket then probe addr len
    else
      match bucket.lookup (masked addr len) with
      | some peer => some peer
      | none => probe addr len

def lookup (addr : BitVec w) : Option UInt32 := lpm.probe addr (w + 1)

end FamilyLpm

structure AllowedIps where
  v4 : FamilyLpm 32
  v6 : FamilyLpm 128

namespace AllowedIps

def new : AllowedIps := ⟨.default, .default⟩

def insert (crate : IpNetCrate) (t : AllowedIps) (cidr : IpNet) (peerIndex : UInt32) : AllowedIps :=
  match cidr with
  | .v4 net => { t with v4 := t.v4.insert (crate.networkV4 net) net.prefixLen peerIndex }
  | .v6 net => { t with v6 := t.v6.insert (crate.networkV6 net) net.prefixLen peerIndex }

def lookup (t : AllowedIps) : IpAddr → Option UInt32
  | .v4 ip => t.v4.lookup ip
  | .v6 ip => t.v6.lookup ip

def matchesForPeer (t : AllowedIps) (addr : IpAddr) (peerIndex : UInt32) : Bool := t.lookup addr = some peerIndex

/-- The table after a sequence of insertions. -/
def build (crate : IpNetCrate) (inserts : List (IpNet × UInt32)) : AllowedIps :=
  inserts.foldl (fun t (cidr, peer) => t.insert crate cidr peer) new

end AllowedIps

/-! ## One family -/

/-- An insertion of a network of the family contains the address. -/
def Covers {w : ℕ} {α : Type} (netOf : α → Option (Net w)) (addr : BitVec w) (a : α) : Prop :=
  ∃ net, netOf a = some net ∧ net.Contains addr

/-- The length of the prefix that an insertion has in the family. -/
def lenOf {w : ℕ} {α : Type} (netOf : α → Option (Net w)) (a : α) : ℕ := ((netOf a).map (·.prefixLen)).getD 0

namespace FamilyLpm

variable {w : ℕ} {lpm : FamilyLpm w} {network : Net w → BitVec w}

theorem lookup_insert (key : BitVec w) {len : ℕ} (hlen : len ≤ w) (peer : UInt32) (key' : BitVec w) (len' : ℕ) :
    ((lpm.insert key len peer).buckets.getD len' ∅).lookup key'
      = ((lpm.buckets.getD len' ∅).lookup key').or (if len' = len ∧ key' = key then some peer else none) := by
  have hlt : len < lpm.buckets.length := lpm.size ▸ Nat.lt_succ_of_le hlen
  rw [insert, List.getD_eq_getElem?_getD, List.getD_eq_getElem?_getD, List.getElem?_modify]
  by_cases hsame : len' = len
  · subst hsame
    rw [List.getElem?_eq_getElem hlt]
    simp only [Option.map_eq_map, Option.map_some, Option.getD_some, if_true, true_and]
    exact lookup_orInsert _ _ _ _
  · rw [if_neg fun h => hsame h.1, Option.or_none]
    simp only [if_neg (Ne.symm hsame), Option.map_eq_map, Option.map_id']

/-- A probe tests the bucket of each length once. -/
theorem probe_succ (addr : BitVec w) (len : ℕ) :
    lpm.probe addr (len + 1) = ((lpm.buckets.getD len ∅).lookup (masked addr len)).or (lpm.probe addr len) := by
  rw [probe]
  by_cases hempty : isEmpty (lpm.buckets.getD len ∅) = true
  · rw [if_pos hempty, lookup_isEmpty hempty]
    rfl
  · rw [if_neg hempty]
    cases (lpm.buckets.getD len ∅).lookup (masked addr len) <;> rfl

theorem getLsbD_masked (addr : BitVec w) {len : ℕ} (hlen : len ≤ w) (i : ℕ) :
    (masked addr len).getLsbD i = (decide (w - len ≤ i) && addr.getLsbD i) := by
  rw [masked]
  split
  · next hzero =>
    subst hzero
    by_cases hi : w - 0 ≤ i
    · simp [BitVec.getLsbD_of_ge addr i hi]
    · rw [decide_eq_false hi, Bool.false_and]
      exact BitVec.getLsbD_zero
  · rw [BitVec.getLsbD_and, BitVec.getLsbD_shiftLeft, BitVec.getLsbD_allOnes]
    by_cases hi : i < w
    · by_cases hlow : w - len ≤ i
      · have hsub : i - (w - len) < w := by omega
        simp [hi, hlow, hsub]
      · simp [hi, hlow, Nat.lt_of_not_le hlow]
    · rw [BitVec.getLsbD_of_ge addr i (Nat.le_of_not_lt hi), Bool.false_and, Bool.and_false]

/-- The masked address is the network just in case the network contains the address. -/
theorem masked_eq_network_iff (hnetwork : ClearsHostBits network) (net : Net w) (addr : BitVec w) :
    masked addr net.prefixLen = network net ↔ net.Contains addr := by
  refine ⟨fun heq i hlow _ => ?_, fun hcontains => ?_⟩
  · have hbit := congrArg (fun x => BitVec.getLsbD x i) heq
    rw [getLsbD_masked addr net.valid, hnetwork, decide_eq_true hlow, Bool.true_and, Bool.true_and] at hbit
    exact hbit.symm
  · apply BitVec.eq_of_getLsbD_eq
    intro i hi
    rw [getLsbD_masked addr net.valid, hnetwork]
    by_cases hlow : w - net.prefixLen ≤ i
    · rw [hcontains i hlow hi]
    · rw [decide_eq_false hlow, Bool.false_and, Bool.false_and]

variable {α : Type} {netOf : α → Option (Net w)} {peerOf : α → UInt32} {inserts : List α}

/-- An insertion is of the network with the given length and masked address. -/
def isOf (network : Net w → BitVec w) (netOf : α → Option (Net w)) (len : ℕ) (key : BitVec w) (a : α) : Bool :=
  (netOf a).any fun net => len = net.prefixLen && key = network net

theorem isOf_iff {len : ℕ} {key : BitVec w} {a : α} :
    isOf network netOf len key a = true ↔ ∃ net, netOf a = some net ∧ len = net.prefixLen ∧ key = network net := by
  simp only [isOf, Option.any_eq_true, Bool.and_eq_true, decide_eq_true_eq]

/-- Each bucket has the peers that first inserted its networks. -/
def Holds (network : Net w → BitVec w) (netOf : α → Option (Net w)) (peerOf : α → UInt32) (inserts : List α)
    (lpm : FamilyLpm w) : Prop :=
  ∀ len key, (lpm.buckets.getD len ∅).lookup key = (inserts.find? (isOf network netOf len key)).map peerOf

theorem holds_default : Holds network netOf peerOf [] default := by
  intro len key
  rw [default, List.getD_eq_getElem?_getD, List.getElem?_replicate]
  split <;> rfl

theorem Holds.insert (h : Holds network netOf peerOf inserts lpm) {a : α} {net : Net w} (hnet : netOf a = some net) :
    Holds network netOf peerOf (inserts ++ [a]) (lpm.insert (network net) net.prefixLen (peerOf a)) := by
  intro len key
  rw [lookup_insert _ net.valid, h len key, List.find?_append, Option.map_or, List.find?_singleton]
  congr 1
  have hiff : isOf network netOf len key a = true ↔ len = net.prefixLen ∧ key = network net := by
    rw [isOf_iff]
    refine ⟨?_, fun hof => ⟨net, hnet, hof⟩⟩
    rintro ⟨net', hnet', hof⟩
    rw [hnet, Option.some.injEq] at hnet'
    exact hnet' ▸ hof
  by_cases hof : len = net.prefixLen ∧ key = network net
  · rw [if_pos hof, if_pos (hiff.mpr hof)]
    rfl
  · rw [if_neg hof, if_neg fun hyes => hof (hiff.mp hyes)]
    rfl

/-- An insertion of the other family is none of this one. -/
theorem Holds.skip (h : Holds network netOf peerOf inserts lpm) {a : α} (hnet : netOf a = none) :
    Holds network netOf peerOf (inserts ++ [a]) lpm := by
  intro len key
  have hno : isOf network netOf len key a = false := by
    rw [isOf, hnet]
    rfl
  rw [h len key, List.find?_append, List.find?_singleton, hno, if_neg Bool.false_ne_true, Option.or_none]

/-- The insertions that an address finds in the bucket of a length are those of that length
that contain it. -/
theorem isOf_masked_iff (hnetwork : ClearsHostBits network) {addr : BitVec w} {len : ℕ} {a : α} :
    isOf network netOf len (masked addr len) a = true ↔ Covers netOf addr a ∧ lenOf netOf a = len := by
  rw [isOf_iff]
  refine ⟨?_, ?_⟩
  · rintro ⟨net, hnet, hlen, hkey⟩
    refine ⟨⟨net, hnet, ?_⟩, ?_⟩
    · rw [hlen] at hkey
      exact (masked_eq_network_iff hnetwork _ _).mp hkey
    · rw [lenOf, hnet]
      exact hlen.symm
  · rintro ⟨⟨net, hnet, hcontains⟩, hlen⟩
    rw [lenOf, hnet] at hlen
    have hlen : net.prefixLen = len := hlen
    refine ⟨net, hnet, hlen.symm, ?_⟩
    rw [← hlen]
    exact (masked_eq_network_iff hnetwork _ _).mpr hcontains

/-- The insertion of the longest prefix below a length that contains the address, the first one
of its prefix. -/
def Wins (netOf : α → Option (Net w)) (addr : BitVec w) (limit : ℕ) (inserts : List α) (a : α) : Prop :=
  ∃ before later, inserts = before ++ a :: later ∧ Covers netOf addr a ∧ lenOf netOf a < limit
    ∧ (∀ b ∈ before, Covers netOf addr b → lenOf netOf b < limit → lenOf netOf b < lenOf netOf a)
    ∧ ∀ b ∈ later, Covers netOf addr b → lenOf netOf b < limit → lenOf netOf b ≤ lenOf netOf a

/-- The probes, by induction on the lengths that are left: the winner, or nothing that covers. -/
theorem Holds.probe (h : Holds network netOf peerOf inserts lpm) (hnetwork : ClearsHostBits network) (addr : BitVec w)
    (limit : ℕ) :
    (∃ a, Wins netOf addr limit inserts a ∧ lpm.probe addr limit = some (peerOf a))
      ∨ (∀ a ∈ inserts, Covers netOf addr a → limit ≤ lenOf netOf a) ∧ lpm.probe addr limit = none := by
  induction limit with
  | zero => exact .inr ⟨fun a _ _ => Nat.zero_le _, rfl⟩
  | succ len ih =>
    rw [probe_succ, h len]
    cases hfind : inserts.find? (isOf network netOf len (masked addr len)) with
    | some a =>
      left
      obtain ⟨ha, before, later, hsplit, hbefore⟩ := List.find?_eq_some_iff_append.mp hfind
      obtain ⟨hcovers, hlen⟩ := (isOf_masked_iff hnetwork).mp ha
      refine ⟨a, ⟨before, later, hsplit, hcovers, by omega, ?_, fun b _ _ hb => by omega⟩, rfl⟩
      intro b hb hbcovers hblen
      -- an earlier one of the same length would have been found
      have hne : lenOf netOf b ≠ len := by
        intro heq
        have hfalse := hbefore b hb
        rw [(isOf_masked_iff hnetwork).mpr ⟨hbcovers, heq⟩] at hfalse
        cases hfalse
      omega
    | none =>
      rw [List.find?_eq_none] at hfind
      have hmiss : ∀ b ∈ inserts, Covers netOf addr b → lenOf netOf b ≠ len :=
        fun b hb hcovers heq => hfind b hb ((isOf_masked_iff hnetwork).mpr ⟨hcovers, heq⟩)
      rw [Option.map_none, Option.none_or]
      rcases ih with ⟨a, ⟨before, later, hsplit, hcovers, hlt, hbefore, hlater⟩, hprobe⟩ | ⟨hnone, hprobe⟩
      · refine .inl ⟨a, ⟨before, later, hsplit, hcovers, by omega, ?_, ?_⟩, hprobe⟩
        · intro b hb hbcovers hblen
          have hne := hmiss b (hsplit ▸ List.mem_append_left _ hb) hbcovers
          exact hbefore b hb hbcovers (by omega)
        · intro b hb hbcovers hblen
          have hne := hmiss b (hsplit ▸ List.mem_append_right _ (List.mem_cons_of_mem _ hb)) hbcovers
          exact hlater b hb hbcovers (by omega)
      · refine .inr ⟨fun a ha hcovers => ?_, hprobe⟩
        have hle := hnone a ha hcovers
        have hne := hmiss a ha hcovers
        omega

end FamilyLpm

/-! ## Both families -/

namespace IpNet

/-- `contains` of the crate: the same family, and the bits of the prefix. -/
def Contains : IpNet → IpAddr → Prop
  | .v4 net, .v4 addr => net.Contains addr
  | .v6 net, .v6 addr => net.Contains addr
  | _, _ => False

def prefixLen : IpNet → ℕ
  | .v4 net => net.prefixLen
  | .v6 net => net.prefixLen

/-- What makes two prefixes identical: the family, the length and the masked address. -/
def prefixOf (crate : IpNetCrate) : IpNet → (ℕ × BitVec 32) ⊕ (ℕ × BitVec 128)
  | .v4 net => .inl (net.prefixLen, crate.networkV4 net)
  | .v6 net => .inr (net.prefixLen, crate.networkV6 net)

def v4? : IpNet → Option (Net 32)
  | .v4 net => some net
  | .v6 _ => none

def v6? : IpNet → Option (Net 128)
  | .v4 _ => none
  | .v6 net => some net

end IpNet

/-- The peer that inserted the longest prefix containing the address, and inserted it first. -/
def FirstLongest (inserts : List (IpNet × UInt32)) (addr : IpAddr) (peer : UInt32) : Prop :=
  ∃ before cidr later, inserts = before ++ (cidr, peer) :: later ∧ cidr.Contains addr
    ∧ (∀ e ∈ before, e.1.Contains addr → e.1.prefixLen < cidr.prefixLen)
    ∧ ∀ e ∈ later, e.1.Contains addr → e.1.prefixLen ≤ cidr.prefixLen

theorem FirstLongest.unique {inserts : List (IpNet × UInt32)} {addr : IpAddr} {p q : UInt32}
    (hp : FirstLongest inserts addr p) (hq : FirstLongest inserts addr q) : p = q := by
  obtain ⟨before, cidr, later, hsplit, hcontains, hbefore, hlater⟩ := hp
  obtain ⟨before', cidr', later', hsplit', hcontains', hbefore', hlater'⟩ := hq
  rw [hsplit, List.append_eq_append_iff] at hsplit'
  rcases hsplit' with ⟨gap, hgap, hrest⟩ | ⟨gap, hgap, hrest⟩
  · cases gap with
    | nil =>
      rw [List.nil_append, List.cons.injEq, Prod.mk.injEq] at hrest
      exact hrest.1.2
    | cons e gap =>
      -- the first winner would come before the second
      rw [List.cons_append, List.cons.injEq] at hrest
      have hearlier := hbefore' (cidr, p) (by rw [hgap, ← hrest.1]; simp) hcontains
      have hlonger := hlater (cidr', q) (by rw [hrest.2]; simp) hcontains'
      dsimp only at hearlier hlonger
      omega
  · cases gap with
    | nil =>
      rw [List.nil_append, List.cons.injEq, Prod.mk.injEq] at hrest
      exact hrest.1.2.symm
    | cons e gap =>
      rw [List.cons_append, List.cons.injEq] at hrest
      have hearlier := hbefore (cidr', q) (by rw [hgap, ← hrest.1]; simp) hcontains'
      have hlonger := hlater' (cidr, p) (by rw [hrest.2]; simp) hcontains
      dsimp only at hearlier hlonger
      omega

section

variable {crate : IpNetCrate} {inserts : List (IpNet × UInt32)}

/-- Each family of a table that is built holds its insertions. -/
theorem holds_build (crate : IpNetCrate) (inserts : List (IpNet × UInt32)) :
    FamilyLpm.Holds crate.networkV4 (fun e : IpNet × UInt32 => e.1.v4?) (·.2) inserts (AllowedIps.build crate inserts).v4
      ∧ FamilyLpm.Holds crate.networkV6 (fun e : IpNet × UInt32 => e.1.v6?) (·.2) inserts
        (AllowedIps.build crate inserts).v6 := by
  induction inserts using List.reverseRecOn with
  | nil => exact ⟨FamilyLpm.holds_default, FamilyLpm.holds_default⟩
  | append_singleton inserts e ih =>
    obtain ⟨hv4, hv6⟩ := ih
    obtain ⟨cidr, peer⟩ := e
    rw [AllowedIps.build, List.foldl_append, ← AllowedIps.build, List.foldl_cons, List.foldl_nil]
    cases cidr with
    | v4 net => exact ⟨hv4.insert rfl, hv6.skip rfl⟩
    | v6 net => exact ⟨hv4.skip rfl, hv6.insert rfl⟩

/-- What an address of a family sees of the insertions: those of its family, with their lengths. -/
structure Sees {w : ℕ} (netOf : IpNet × UInt32 → Option (Net w)) (ip : BitVec w) (addr : IpAddr) : Prop where
  covers : ∀ e, Covers netOf ip e ↔ e.1.Contains addr
  length : ∀ e, e.1.Contains addr → lenOf netOf e = e.1.prefixLen ∧ e.1.prefixLen < w + 1

theorem sees_v4 (ip : BitVec 32) : Sees (fun e => e.1.v4?) ip (.v4 ip) where
  covers := by
    rintro ⟨cidr, peer⟩
    cases cidr with
    | v4 net => exact ⟨fun ⟨net', hnet, h⟩ => (Option.some.inj hnet) ▸ h, fun h => ⟨net, rfl, h⟩⟩
    | v6 net => exact ⟨fun ⟨net', hnet, _⟩ => (Option.some_ne_none _ hnet.symm).elim, False.elim⟩
  length := by
    rintro ⟨cidr, peer⟩ h
    cases cidr with
    | v4 net => exact ⟨rfl, Nat.lt_succ_of_le net.valid⟩
    | v6 net => exact h.elim

theorem sees_v6 (ip : BitVec 128) : Sees (fun e => e.1.v6?) ip (.v6 ip) where
  covers := by
    rintro ⟨cidr, peer⟩
    cases cidr with
    | v4 net => exact ⟨fun ⟨net', hnet, _⟩ => (Option.some_ne_none _ hnet.symm).elim, False.elim⟩
    | v6 net => exact ⟨fun ⟨net', hnet, h⟩ => (Option.some.inj hnet) ▸ h, fun h => ⟨net, rfl, h⟩⟩
  length := by
    rintro ⟨cidr, peer⟩ h
    cases cidr with
    | v4 net => exact h.elim
    | v6 net => exact ⟨rfl, Nat.lt_succ_of_le net.valid⟩

section

variable {w : ℕ} {netOf : IpNet × UInt32 → Option (Net w)} {ip : BitVec w} {addr : IpAddr}

/-- The winner of a family's probes is the first longest prefix of the whole sequence. -/
theorem Sees.firstLongest (h : Sees netOf ip addr) {e : IpNet × UInt32}
    (hwins : FamilyLpm.Wins netOf ip (w + 1) inserts e) : FirstLongest inserts addr e.2 := by
  obtain ⟨before, later, hsplit, hcovers, -, hbefore, hlater⟩ := hwins
  have hcontains := (h.covers e).mp hcovers
  have hlen := (h.length e hcontains).1
  refine ⟨before, e.1, later, hsplit, hcontains, ?_, ?_⟩
  · intro b hb hbcontains
    obtain ⟨hblen, hlt⟩ := h.length b hbcontains
    have hshorter := hbefore b hb ((h.covers b).mpr hbcontains) (by rwa [hblen])
    rwa [hblen, hlen] at hshorter
  · intro b hb hbcontains
    obtain ⟨hblen, hlt⟩ := h.length b hbcontains
    have hshorter := hlater b hb ((h.covers b).mpr hbcontains) (by rwa [hblen])
    rwa [hblen, hlen] at hshorter

theorem Sees.lookup_cases (h : Sees netOf ip addr) {network : Net w → BitVec w} (hnetwork : ClearsHostBits network)
    {lpm : FamilyLpm w} (hholds : FamilyLpm.Holds network netOf (·.2) inserts lpm) :
    (∃ peer, FirstLongest inserts addr peer ∧ lpm.lookup ip = some peer)
      ∨ (∀ e ∈ inserts, ¬ e.1.Contains addr) ∧ lpm.lookup ip = none := by
  rcases hholds.probe hnetwork ip (w + 1) with ⟨e, hwins, hprobe⟩ | ⟨hnone, hprobe⟩
  · exact .inl ⟨e.2, h.firstLongest hwins, hprobe⟩
  · refine .inr ⟨fun e he hcontains => ?_, hprobe⟩
    obtain ⟨hlen, hlt⟩ := h.length e hcontains
    have hle := hnone e he ((h.covers e).mpr hcontains)
    omega

end

/-- A lookup finds the peer of the longest prefix, or there is none that contains the address. -/
theorem lookup_cases (hcrate : Documented crate) (inserts : List (IpNet × UInt32)) (addr : IpAddr) :
    (∃ peer, FirstLongest inserts addr peer ∧ (AllowedIps.build crate inserts).lookup addr = some peer)
      ∨ (∀ e ∈ inserts, ¬ e.1.Contains addr) ∧ (AllowedIps.build crate inserts).lookup addr = none := by
  cases addr with
  | v4 ip => exact (sees_v4 ip).lookup_cases hcrate.v4 (holds_build crate inserts).1
  | v6 ip => exact (sees_v6 ip).lookup_cases hcrate.v6 (holds_build crate inserts).2

theorem lookup_eq_some_iff (hcrate : Documented crate) (inserts : List (IpNet × UInt32)) (addr : IpAddr)
    (peer : UInt32) :
    (AllowedIps.build crate inserts).lookup addr = some peer ↔ FirstLongest inserts addr peer := by
  rcases lookup_cases hcrate inserts addr with ⟨owner, howner, hlookup⟩ | ⟨hnone, hlookup⟩
  · rw [hlookup, Option.some.injEq]
    refine ⟨?_, fun hpeer => howner.unique hpeer⟩
    rintro rfl
    exact howner
  · rw [hlookup]
    refine ⟨fun h => (Option.some_ne_none _ h.symm).elim, ?_⟩
    rintro ⟨before, cidr, later, hsplit, hcontains, -⟩
    exact (hnone (cidr, peer) (hsplit ▸ List.mem_append_right _ List.mem_cons_self) hcontains).elim

theorem lookup_eq_none_iff (hcrate : Documented crate) (inserts : List (IpNet × UInt32)) (addr : IpAddr) :
    (AllowedIps.build crate inserts).lookup addr = none ↔ ∀ e ∈ inserts, ¬ e.1.Contains addr := by
  rcases lookup_cases hcrate inserts addr with ⟨owner, ⟨before, cidr, later, hsplit, hcontains, -⟩, hlookup⟩ | ⟨hnone, hlookup⟩
  · rw [hlookup]
    refine ⟨fun h => (Option.some_ne_none _ h).elim, fun hnone => ?_⟩
    exact (hnone (cidr, owner) (hsplit ▸ List.mem_append_right _ List.mem_cons_self) hcontains).elim
  · exact ⟨fun _ => hnone, fun _ => hlookup⟩

/-! ## The order of the insertions -/

/-- Two sequences have the insertions of each prefix in the same order. -/
def SamePerPrefix (crate : IpNetCrate) (inserts inserts' : List (IpNet × UInt32)) : Prop :=
  ∀ k, inserts.filter (fun e => e.1.prefixOf crate = k) = inserts'.filter fun e => e.1.prefixOf crate = k

theorem isOf_v4_eq (crate : IpNetCrate) (len : ℕ) (key : BitVec 32) :
    FamilyLpm.isOf crate.networkV4 (fun e : IpNet × UInt32 => e.1.v4?) len key
      = fun e => decide (e.1.prefixOf crate = .inl (len, key)) := by
  funext ⟨cidr, peer⟩
  rw [Bool.eq_iff_iff, FamilyLpm.isOf_iff, decide_eq_true_eq]
  cases cidr <;> simp [IpNet.v4?, IpNet.prefixOf, eq_comm]

theorem isOf_v6_eq (crate : IpNetCrate) (len : ℕ) (key : BitVec 128) :
    FamilyLpm.isOf crate.networkV6 (fun e : IpNet × UInt32 => e.1.v6?) len key
      = fun e => decide (e.1.prefixOf crate = .inr (len, key)) := by
  funext ⟨cidr, peer⟩
  rw [Bool.eq_iff_iff, FamilyLpm.isOf_iff, decide_eq_true_eq]
  cases cidr <;> simp [IpNet.v6?, IpNet.prefixOf, eq_comm]

/-- Probes see nothing of a table but what its buckets answer. -/
theorem FamilyLpm.probe_congr {w : ℕ} {lpm lpm' : FamilyLpm w}
    (h : ∀ len key, (lpm.buckets.getD len ∅).lookup key = (lpm'.buckets.getD len ∅).lookup key) (addr : BitVec w)
    (limit : ℕ) : lpm.probe addr limit = lpm'.probe addr limit := by
  induction limit with
  | zero => rfl
  | succ len ih => rw [probe_succ, probe_succ, h, ih]

theorem SamePerPrefix.lookup_eq {inserts' : List (IpNet × UInt32)} (h : SamePerPrefix crate inserts inserts')
    (addr : IpAddr) :
    (AllowedIps.build crate inserts).lookup addr = (AllowedIps.build crate inserts').lookup addr := by
  cases addr with
  | v4 ip =>
    apply FamilyLpm.probe_congr
    intro len key
    rw [(holds_build crate inserts).1, (holds_build crate inserts').1, isOf_v4_eq, ← List.head?_filter,
      ← List.head?_filter, h (.inl (len, key))]
  | v6 ip =>
    apply FamilyLpm.probe_congr
    intro len key
    rw [(holds_build crate inserts).2, (holds_build crate inserts').2, isOf_v6_eq, ← List.head?_filter,
      ← List.head?_filter, h (.inr (len, key))]

/-- After any sequence of insertions a lookup returns the peer that first inserted the longest
prefix containing the address, and nothing where no prefix contains it. An address matches for
one peer at most, and a reordering that keeps the order of the insertions of each prefix changes
no lookup. -/
theorem lookup_longest_first (crate : IpNetCrate) (hcrate : Documented crate) (inserts : List (IpNet × UInt32)) :
    (∀ addr peer, (AllowedIps.build crate inserts).lookup addr = some peer ↔ FirstLongest inserts addr peer)
      ∧ (∀ addr, (AllowedIps.build crate inserts).lookup addr = none ↔ ∀ e ∈ inserts, ¬ e.1.Contains addr)
      ∧ (∀ addr p q, (AllowedIps.build crate inserts).matchesForPeer addr p = true →
        (AllowedIps.build crate inserts).matchesForPeer addr q = true → p = q)
      ∧ ∀ inserts', SamePerPrefix crate inserts inserts' → ∀ addr,
        (AllowedIps.build crate inserts).lookup addr = (AllowedIps.build crate inserts').lookup addr := by
  refine ⟨lookup_eq_some_iff hcrate inserts, lookup_eq_none_iff hcrate inserts, ?_, fun _ h => h.lookup_eq⟩
  intro addr p q hp hq
  rw [AllowedIps.matchesForPeer, decide_eq_true_eq] at hp hq
  exact Option.some.inj (hp.symm.trans hq)

/-- `network` as a mask of the address. -/
def maskingCrate : IpNetCrate :=
  ⟨fun net => FamilyLpm.masked net.addr net.prefixLen, fun net => FamilyLpm.masked net.addr net.prefixLen⟩

theorem maskingCrate_documented : Documented maskingCrate :=
  ⟨fun net => FamilyLpm.getLsbD_masked net.addr net.valid, fun net => FamilyLpm.getLsbD_masked net.addr net.valid⟩

/-- 10.0.0.0/8 of peer 1, then 10.1.2.3/16 of peer 2 and the same prefix again of peer 3. -/
def nestedInserts : List (IpNet × UInt32) :=
  [(.v4 ⟨0x0A000000#32, 8, by decide⟩, 1), (.v4 ⟨0x0A010203#32, 16, by decide⟩, 2),
    (.v4 ⟨0x0A010000#32, 16, by decide⟩, 3)]

theorem lookup_longest_first_nested :
    Documented maskingCrate
      ∧ (AllowedIps.build maskingCrate nestedInserts).lookup (.v4 0x0A010909#32) = some 2
      ∧ FirstLongest nestedInserts (.v4 0x0A010909#32) 2 := by
  have hlookup : (AllowedIps.build maskingCrate nestedInserts).lookup (.v4 0x0A010909#32) = some 2 := by decide +kernel
  exact ⟨maskingCrate_documented, hlookup,
    ((lookup_longest_first maskingCrate maskingCrate_documented nestedInserts).1 _ _).mp hlookup⟩

end

end Xpf.AllowedIps
