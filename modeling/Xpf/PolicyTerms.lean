/-
Application terms of a security policy: `userspace-dp/src/policy.rs`.

A rule lists application terms and the first listed term that matches a packet decides the
idle timeout. `from_matches` files the terms by protocol and, inside a protocol, in three
classes: terms for one destination port, terms with other port ranges, and terms for an
ICMP type. A lookup takes the first hit of each class and keeps the one that was listed
first. `fromMatches_matches` says that this is the plain scan of the list.
-/
import Xpf.FilterTerms
import Xpf.Tables

set_option autoImplicit false

namespace Xpf.Policies

open Xpf.Tables
open Xpf.Filters (PortRange)

/-! ## Terms -/

/-- `ApplicationMatch`. -/
structure ApplicationMatch where
  protocol : UInt8
  sourcePorts : List PortRange
  destinationPorts : List PortRange
  icmpType : Option UInt8
  icmpCode : Option UInt8
  inactivityTimeout : Option UInt32
deriving DecidableEq

/-- A term of `range_terms`. -/
structure RangeTerm where
  order : ℕ
  source : List PortRange
  destination : List PortRange
  timeout : Option UInt32

/-- A term of `icmp_constraints`. -/
structure IcmpConstraint where
  order : ℕ
  type : UInt8
  code : Option UInt8
  timeout : Option UInt32

/-- `ProtoTerms`: the terms of one protocol, each with its place in the list. -/
structure ProtoTerms where
  exactDstPorts : Table UInt16 (ℕ × Option UInt32)
  rangeTerms : List RangeTerm
  icmpConstraints : List IcmpConstraint

def ProtoTerms.default : ProtoTerms := ⟨∅, [], []⟩

/-- `CompiledApplications`. -/
structure CompiledApplications where
  matchAny : Bool
  byProtocol : Table UInt8 ProtoTerms

/-- `port_ranges_match`. -/
def portRangesMatch (ranges : List PortRange) (port : UInt16) : Bool :=
  ranges.isEmpty || ranges.any fun range => range.low ≤ port && port ≤ range.high

/-- The one port of a term without source ports whose only destination range is that port. -/
def ApplicationMatch.exactDstPort (app : ApplicationMatch) : Option UInt16 :=
  match app.sourcePorts, app.destinationPorts with
  | [], [range] => if range.low = range.high then some range.low else none
  | _, _ => none

/-- One round of the loop of `from_matches` at the entry of the term's protocol. -/
def ProtoTerms.push (entry : ProtoTerms) (app : ApplicationMatch) (order : ℕ) : ProtoTerms :=
  match app.icmpType with
  | some type =>
    { entry with
      icmpConstraints := entry.icmpConstraints ++ [⟨order, type, app.icmpCode, app.inactivityTimeout⟩] }
  | none =>
    match app.exactDstPort with
    | some port =>
      { entry with exactDstPorts := orInsert entry.exactDstPorts port (order, app.inactivityTimeout) }
    | none =>
      { entry with
        rangeTerms := entry.rangeTerms
          ++ [⟨order, app.sourcePorts, app.destinationPorts, app.inactivityTimeout⟩] }

/-- `from_matches`. -/
def CompiledApplications.fromMatches (apps : List ApplicationMatch) : CompiledApplications :=
  if apps.isEmpty then ⟨true, ∅⟩
  else
    { matchAny := false
      byProtocol := apps.zipIdx.foldl
        (fun t a => upsert t a.1.protocol .default fun entry => entry.push a.1 a.2) ∅ }

/-! ## Lookup -/

/-- `src_ranges.is_empty() && dst_ranges.is_empty()`: the term constrains the protocol only. -/
def RangeTerm.protocolOnly (term : RangeTerm) : Bool := term.source.isEmpty && term.destination.isEmpty

/-- The closure of the scan of `range_terms`. -/
def RangeTerm.matches (term : RangeTerm) (srcPort dstPort : UInt16) (l4Present : Bool) : Bool :=
  if term.protocolOnly then true
  else l4Present && portRangesMatch term.source srcPort && portRangesMatch term.destination dstPort

/-- The closure of the scan of `icmp_constraints`. -/
def IcmpConstraint.matches (term : IcmpConstraint) (packet : UInt8 × UInt8) : Bool :=
  term.type = packet.1 && term.code.all fun code => code = packet.2

/-- `if best.map_or(true, |(b, _)| order < b) { best = Some((order, timeout)) }`, for a class
that has a hit. -/
def keepFirst (best hit : Option (ℕ × Option UInt32)) : Option (ℕ × Option UInt32) :=
  match hit with
  | none => best
  | some c => if best.all fun b => c.1 < b.1 then some c else best

/-- The hit of the three classes that was listed first. -/
def ProtoTerms.best (terms : ProtoTerms) (srcPort dstPort : UInt16)
    (packetIcmp : Option (UInt8 × UInt8)) (l4Present : Bool) : Option (ℕ × Option UInt32) :=
  let exact := if l4Present then terms.exactDstPorts.lookup dstPort else none
  let range := terms.rangeTerms.find? fun t => t.matches srcPort dstPort l4Present
  let icmp := packetIcmp.bind fun packet => terms.icmpConstraints.find? fun t => t.matches packet
  keepFirst (keepFirst exact (range.map fun t => (t.order, t.timeout)))
    (icmp.map fun t => (t.order, t.timeout))

/-- `CompiledApplications::matches`: the timeout of the term that decides. -/
def CompiledApplications.matches (apps : CompiledApplications) (protocol : UInt8)
    (srcPort dstPort : UInt16) (packetIcmp : Option (UInt8 × UInt8)) (l4Present : Bool) :
    Option (Option UInt32) :=
  if apps.matchAny then some none
  else do
    let terms ← apps.byProtocol.lookup protocol
    let best ← terms.best srcPort dstPort packetIcmp l4Present
    return best.2

/-- The closure of `has_l4_constrained_term`. -/
def ProtoTerms.hasL4Constraints (terms : ProtoTerms) (packetIcmp : Option (UInt8 × UInt8)) : Bool :=
  !isEmpty terms.exactDstPorts || terms.rangeTerms.any (fun t => !t.protocolOnly)
    || (packetIcmp.isNone && !terms.icmpConstraints.isEmpty)

/-- `has_l4_constrained_term`: under the sentinel the terms of every protocol count. -/
def CompiledApplications.hasL4ConstrainedTerm (apps : CompiledApplications) (protocol : UInt8)
    (packetIcmp : Option (UInt8 × UInt8)) : Bool :=
  if apps.matchAny then false
  else if protocol = Filters.shimProtoFragmentNoL4 then
    anyValue apps.byProtocol fun terms => terms.hasL4Constraints packetIcmp
  else (apps.byProtocol.lookup protocol).any fun terms => terms.hasL4Constraints packetIcmp

/-- `has_any_protocol_term`. -/
def CompiledApplications.hasAnyProtocolTerm (apps : CompiledApplications) : Bool :=
  !apps.matchAny && anyValue apps.byProtocol fun terms => terms.rangeTerms.any RangeTerm.protocolOnly

/-! ## The scan of the list -/

/-- A listed term covers a packet of its protocol. -/
def ApplicationMatch.covers (app : ApplicationMatch) (srcPort dstPort : UInt16)
    (packetIcmp : Option (UInt8 × UInt8)) (l4Present : Bool) : Bool :=
  match app.icmpType with
  | some type => packetIcmp.any fun packet =>
      type = packet.1 && app.icmpCode.all fun code => code = packet.2
  | none =>
    app.sourcePorts.isEmpty && app.destinationPorts.isEmpty
      || l4Present && portRangesMatch app.sourcePorts srcPort && portRangesMatch app.destinationPorts dstPort

section

variable {α : Type} {order : α → ℕ} {timeout : α → Option UInt32}

/-- Of two classes of a list in its order, the first hit of either. -/
theorem keepFirst_find? (p q : α → Bool) : ∀ {l : List α}, (l.Pairwise fun a b => order a < order b) →
    keepFirst ((l.find? p).map fun a => (order a, timeout a)) ((l.find? q).map fun a => (order a, timeout a))
      = (l.find? fun a => p a || q a).map fun a => (order a, timeout a)
  | [], _ => rfl
  | a :: l, h => by
    obtain ⟨hhead, htail⟩ := List.pairwise_cons.mp h
    have later : ∀ {r : α → Bool} {b : α}, l.find? r = some b → order a < order b := by
      intro r b hb
      exact hhead b (List.mem_of_find?_eq_some hb)
    cases hp : p a <;> cases hq : q a <;> simp only [List.find?_cons, hp, hq, Bool.or_self, Bool.or_true,
      Bool.true_or, Bool.or_false]
    · exact keepFirst_find? p q htail
    · cases hlater : l.find? p with
      | none => rfl
      | some b => simp [keepFirst, later hlater]
    · cases hlater : l.find? q with
      | none => rfl
      | some b => simp [keepFirst, (later hlater).le]
    · simp [keepFirst]

end

/-! ## What a protocol's entry holds -/

/-- The class of the terms with port ranges other than one destination port, or without. -/
def ApplicationMatch.isRange (app : ApplicationMatch) : Bool :=
  app.icmpType.isNone && app.exactDstPort.isNone

/-- The class of the terms for the destination port. -/
def ApplicationMatch.isExact (app : ApplicationMatch) (port : UInt16) : Bool :=
  app.icmpType.isNone && app.exactDstPort = some port

/-- The terms of a protocol, pushed in their order. -/
def ProtoTerms.ofList (l : List (ApplicationMatch × ℕ)) : ProtoTerms :=
  l.foldl (fun entry a => entry.push a.1 a.2) .default

/-- The order and the timeout of a listed term. -/
def hitOf (a : ApplicationMatch × ℕ) : ℕ × Option UInt32 := (a.2, a.1.inactivityTimeout)

theorem ProtoTerms.ofList_append (l : List (ApplicationMatch × ℕ)) (a : ApplicationMatch × ℕ) :
    ofList (l ++ [a]) = (ofList l).push a.1 a.2 := by
  rw [ofList, List.foldl_append]
  rfl

section Push

variable (entry : ProtoTerms) (app : ApplicationMatch) (order : ℕ)

theorem ProtoTerms.push_exactDstPorts (port : UInt16) :
    (entry.push app order).exactDstPorts.lookup port
      = (entry.exactDstPorts.lookup port).or
          (if app.isExact port then some (order, app.inactivityTimeout) else none) := by
  rw [push, ApplicationMatch.isExact]
  cases hicmp : app.icmpType with
  | some type => simp
  | none =>
    cases hport : app.exactDstPort with
    | some exact =>
      dsimp only
      rw [lookup_orInsert]
      simp [eq_comm]
    | none => simp

theorem ProtoTerms.push_rangeTerms :
    (entry.push app order).rangeTerms
      = entry.rangeTerms ++ (if app.isRange
          then [⟨order, app.sourcePorts, app.destinationPorts, app.inactivityTimeout⟩] else []) := by
  rw [push, ApplicationMatch.isRange]
  cases app.icmpType with
  | some type => simp
  | none => cases app.exactDstPort <;> simp

theorem ProtoTerms.push_icmpConstraints :
    (entry.push app order).icmpConstraints
      = entry.icmpConstraints
        ++ (app.icmpType.map fun type => ⟨order, type, app.icmpCode, app.inactivityTimeout⟩).toList := by
  rw [push]
  cases app.icmpType with
  | some type => rfl
  | none => cases app.exactDstPort <;> simp

end Push

section Entry

variable (l : List (ApplicationMatch × ℕ)) (srcPort dstPort : UInt16)
  (packetIcmp : Option (UInt8 × UInt8)) (l4Present : Bool)

theorem ProtoTerms.ofList_exact :
    (ofList l).exactDstPorts.lookup dstPort = (l.find? fun a => a.1.isExact dstPort).map hitOf := by
  induction l using List.reverseRecOn with
  | nil => rfl
  | append_singleton l a ih =>
    rw [ofList_append, push_exactDstPorts, ih, List.find?_append, Option.map_or]
    congr 1
    rw [List.find?_singleton]
    split_ifs <;> rfl

theorem ProtoTerms.ofList_range :
    ((ofList l).rangeTerms.find? fun t => t.matches srcPort dstPort l4Present).map
        (fun t => (t.order, t.timeout))
      = (l.find? fun a => a.1.isRange && a.1.covers srcPort dstPort packetIcmp l4Present).map hitOf := by
  induction l using List.reverseRecOn with
  | nil => rfl
  | append_singleton l a ih =>
    rw [ofList_append, push_rangeTerms, List.find?_append, List.find?_append, Option.map_or,
      Option.map_or, ih]
    congr 1
    cases hrange : a.1.isRange
    · simp [hrange]
    · -- a range term has no ICMP type, and the two forms of its condition agree
      have hicmp : a.1.icmpType = none := by
        simp only [ApplicationMatch.isRange, Bool.and_eq_true, Option.isNone_iff_eq_none] at hrange
        exact hrange.1
      have hcond : RangeTerm.matches ⟨a.2, a.1.sourcePorts, a.1.destinationPorts, a.1.inactivityTimeout⟩
          srcPort dstPort l4Present = a.1.covers srcPort dstPort packetIcmp l4Present := by
        rw [RangeTerm.matches, RangeTerm.protocolOnly, ApplicationMatch.covers, hicmp]
        dsimp only
        split_ifs with hports
        · rw [hports]
          rfl
        · rw [Bool.eq_false_iff.mpr hports]
          rfl
      rw [if_pos rfl, List.find?_singleton, List.find?_singleton, hcond, hrange, Bool.true_and]
      split_ifs <;> rfl

theorem ProtoTerms.ofList_icmp :
    (packetIcmp.bind fun packet => (ofList l).icmpConstraints.find? fun t => t.matches packet).map
        (fun t => (t.order, t.timeout))
      = (l.find? fun a => a.1.icmpType.isSome && a.1.covers srcPort dstPort packetIcmp l4Present).map
          hitOf := by
  cases packetIcmp with
  | none =>
    rw [Option.bind_none, Option.map_none, eq_comm, Option.map_eq_none_iff, List.find?_eq_none]
    intro a _ h
    obtain ⟨hsome, hcovers⟩ := Bool.and_eq_true _ _ ▸ h
    obtain ⟨type, htype⟩ := Option.isSome_iff_exists.mp hsome
    rw [ApplicationMatch.covers, htype] at hcovers
    cases hcovers
  | some packet =>
    rw [Option.bind_some]
    induction l using List.reverseRecOn with
    | nil => rfl
    | append_singleton l a ih =>
      rw [ofList_append, push_icmpConstraints, List.find?_append, List.find?_append, Option.map_or,
        Option.map_or, ih]
      congr 1
      cases htype : a.1.icmpType with
      | none => simp [htype]
      | some type =>
        have hcond : IcmpConstraint.matches ⟨a.2, type, a.1.icmpCode, a.1.inactivityTimeout⟩ packet
            = a.1.covers srcPort dstPort (some packet) l4Present := by
          rw [IcmpConstraint.matches, ApplicationMatch.covers, htype]
          rfl
        rw [Option.map_some, Option.toList_some, List.find?_singleton, List.find?_singleton, hcond, htype,
          Option.isSome_some, Bool.true_and]
        split_ifs <;> rfl

theorem ApplicationMatch.exactDstPort_eq_some {app : ApplicationMatch} {port : UInt16}
    (h : app.exactDstPort = some port) :
    app.sourcePorts = [] ∧ app.destinationPorts = [⟨port, port⟩] := by
  rw [exactDstPort] at h
  split at h
  · rename_i range hsource hdestination
    split_ifs at h with hsingle
    obtain rfl := Option.some.inj h
    refine ⟨hsource, ?_⟩
    rw [hdestination]
    congr 1
    rw [PortRange.mk.injEq]
    exact ⟨rfl, hsingle.symm⟩
  · cases h

theorem ApplicationMatch.covers_exact {app : ApplicationMatch} {port : UInt16}
    (hicmp : app.icmpType = none) (hport : app.exactDstPort = some port) :
    app.covers srcPort dstPort packetIcmp l4Present = (l4Present && port == dstPort) := by
  obtain ⟨hsource, hdestination⟩ := exactDstPort_eq_some hport
  rw [covers, hicmp, hsource, hdestination]
  have heq : (decide (port ≤ dstPort) && decide (dstPort ≤ port)) = (port == dstPort) := by
    rw [Bool.eq_iff_iff, Bool.and_eq_true, decide_eq_true_eq, decide_eq_true_eq, beq_iff_eq]
    exact ⟨fun h => UInt16.le_antisymm h.1 h.2, fun h => h ▸ ⟨UInt16.le_refl _, UInt16.le_refl _⟩⟩
  simp [portRangesMatch, heq]

/-- A term with a packet in its class is exactly one that covers it. -/
theorem classes_cover (app : ApplicationMatch) :
    (l4Present && app.isExact dstPort || app.isRange && app.covers srcPort dstPort packetIcmp l4Present
      || app.icmpType.isSome && app.covers srcPort dstPort packetIcmp l4Present)
      = app.covers srcPort dstPort packetIcmp l4Present := by
  rw [ApplicationMatch.isExact, ApplicationMatch.isRange]
  cases hicmp : app.icmpType with
  | some type => simp
  | none =>
    cases hport : app.exactDstPort with
    | none => simp
    | some port =>
      rw [ApplicationMatch.covers_exact srcPort dstPort packetIcmp l4Present hicmp hport]
      rcases eq_or_ne port dstPort with rfl | hne
      · simp
      · simp [hne]

/-- The best hit of the three classes is the first listed term that covers the packet. -/
theorem ProtoTerms.best_ofList (hl : l.Pairwise fun a b => a.2 < b.2) :
    (ofList l).best srcPort dstPort packetIcmp l4Present
      = (l.find? fun a => a.1.covers srcPort dstPort packetIcmp l4Present).map hitOf := by
  have hexact : (if l4Present then (ofList l).exactDstPorts.lookup dstPort else none)
      = (l.find? fun a => l4Present && a.1.isExact dstPort).map hitOf := by
    cases l4Present
    · simp
    · simpa using ofList_exact l dstPort
  have hrange := ofList_range l srcPort dstPort packetIcmp l4Present
  have hicmp := ofList_icmp l srcPort dstPort packetIcmp l4Present
  have hmerge : ∀ p q : ApplicationMatch × ℕ → Bool,
      keepFirst ((l.find? p).map hitOf) ((l.find? q).map hitOf)
        = (l.find? fun a => p a || q a).map hitOf := fun p q => keepFirst_find? p q hl
  rw [best, hexact, hrange, hicmp, hmerge, hmerge]
  simp only [classes_cover]

end Entry

/-- **The compiled terms are the list.** A rule without terms matches every packet, without
a timeout of its own; any other one by its first listed term that covers the packet. -/
theorem fromMatches_matches (apps : List ApplicationMatch) (protocol : UInt8) (srcPort dstPort : UInt16)
    (packetIcmp : Option (UInt8 × UInt8)) (l4Present : Bool) :
    (CompiledApplications.fromMatches apps).matches protocol srcPort dstPort packetIcmp l4Present
      = if apps.isEmpty then some none
        else (apps.find? fun app => app.protocol = protocol
          && app.covers srcPort dstPort packetIcmp l4Present).map (·.inactivityTimeout) := by
  rw [CompiledApplications.fromMatches]
  split_ifs with hnil
  · rfl
  · rw [CompiledApplications.matches, if_neg Bool.false_ne_true]
    -- the terms filed under the protocol keep the order of the list
    let filed := apps.zipIdx.filter fun a => decide (a.1.protocol = protocol)
    have hsorted : filed.Pairwise fun a b => a.2 < b.2 := by
      have hrange : (apps.zipIdx.map Prod.snd).Pairwise (· < ·) := by
        rw [List.zipIdx_map_snd]
        exact List.pairwise_lt_range'
      exact (List.pairwise_map.mp hrange).filter _
    have hfind : (filed.find? fun a => a.1.covers srcPort dstPort packetIcmp l4Present).map (·.1)
        = apps.find? fun app => app.protocol = protocol
            && app.covers srcPort dstPort packetIcmp l4Present := by
      rw [List.find?_filter]
      conv_rhs => rw [← List.zipIdx_map_fst 0 apps, List.find?_map]
      simp only [Function.comp_def, Bool.decide_and, Bool.decide_eq_true]
    have hlookup := lookup_foldl_upsert (fun a : ApplicationMatch × ℕ => a.1.protocol) ProtoTerms.default
      (fun a entry => entry.push a.1 a.2) protocol apps.zipIdx ∅
    dsimp only at hlookup ⊢
    rw [hlookup, ← hfind, Option.map_map]
    split_ifs with hany
    · change (((ProtoTerms.ofList filed).best srcPort dstPort packetIcmp l4Present).bind _) = _
      rw [ProtoTerms.best_ofList filed srcPort dstPort packetIcmp l4Present hsorted]
      cases filed.find? fun a => a.1.covers srcPort dstPort packetIcmp l4Present <;> rfl
    · have hnone : filed = [] := by
        rw [List.filter_eq_nil_iff]
        intro a ha hproto
        exact hany (List.any_eq_true.mpr ⟨a, ha, hproto⟩)
      rw [hnone]
      rfl

end Xpf.Policies
