/-
The port table of one NAT address: `AddressOccupancy` and `RecycleRing` of
`userspace-dp/src/nat/allocator/occupancy.rs`.

A bitmap says which ports are taken, and a FIFO ring holds one token for each port that
has been freed, with the time of its latest free. A claim probes the range from a keyed
offset on, passing over ports that are excluded or, on a small range, freed too recently;
what the probe leaves is looked for in the ring. The histories here are sequential: every
operation runs to its end before the next one starts, so an atomic read-modify-write is a
read and a write.

Ports, offsets and times are natural numbers. A table is built for a range that ends
within 16 bits, and a time difference that would be negative is 0 in the source as well.
-/
import Xpf.Bitmap
import Xpf.Runs

set_option autoImplicit false

namespace Xpf.PortOccupancy

open Bitmap Runs

/-! ## The keyed offset -/

/-- `pat_mix`. -/
def patMix (x : UInt64) : UInt64 :=
  let x := (x ^^^ (x >>> 30)) * 0xbf58476d1ce4e5b9
  let x := (x ^^^ (x >>> 27)) * 0x94d049bb133111eb
  x ^^^ (x >>> 31)

/-- `pat_keyed_offset`. -/
def patKeyedOffset (secret key : UInt64) (range : ℕ) : ℕ :=
  if range = 0 then 0
  else (patMix (secret ^^^ patMix (key ^^^ 0x1601160116011601))).toNat % range

/-! ## The recycle ring -/

/-- `PAT_PORT_QUARANTINE_NS`. -/
def patPortQuarantineNs : ℕ := 60000000000

/-- `SMALL_POOL_QUARANTINE_MAX_RANGE`. -/
def smallPoolQuarantineMaxRange : ℕ := 256

/-- `RecycleRing`: tokens of a port and the time of its free, and the bits of the offsets
that have one. The bits are allocated with the first token. -/
structure RecycleRing where
  queue : List (ℕ × ℕ)
  queued : List Word
  nwords : ℕ

namespace RecycleRing

/-- `RecycleRing::new`. -/
def new (range : ℕ) : RecycleRing := ⟨[], [], (range + 63) / 64⟩

/-- `is_queued`. -/
def isQueued (r : RecycleRing) (offset : ℕ) : Bool := test r.queued offset

/-- `mark`. -/
def mark (r : RecycleRing) (offset : ℕ) : RecycleRing :=
  let queued := if r.queued.isEmpty then List.replicate r.nwords 0 else r.queued
  { r with queued := set queued offset }

/-- `unmark`. -/
def unmark (r : RecycleRing) (offset : ℕ) : RecycleRing := { r with queued := clear r.queued offset }

/-- The first token of a port moved to a later time. -/
def restamp (port freedAtNs : ℕ) : List (ℕ × ℕ) → List (ℕ × ℕ)
  | [] => []
  | token :: rest =>
    if token.1 = port then (token.1, max token.2 freedAtNs) :: rest else token :: restamp port freedAtNs rest

/-- `push_at`: whether a token was queued, and the ring. -/
def pushAt (r : RecycleRing) (port : ℕ) (offset : Option ℕ) (freedAtNs : ℕ) : Bool × RecycleRing :=
  match offset with
  | some offset =>
    if r.isQueued offset then (false, { r with queue := restamp port freedAtNs r.queue })
    else (true, { r.mark offset with queue := (r.mark offset).queue ++ [(port, freedAtNs)] })
  | none => (true, { r with queue := r.queue ++ [(port, freedAtNs)] })

/-- `requeue`. -/
def requeue (r : RecycleRing) (port offset freedAtNs : ℕ) : RecycleRing :=
  { r.mark offset with queue := (r.mark offset).queue ++ [(port, freedAtNs)] }

end RecycleRing

/-- `RecycleRing::quarantined`: a free at 0 was made without a clock. -/
def quarantined (range freedAtNs nowNs : ℕ) : Bool :=
  freedAtNs ≠ 0 && range ≤ smallPoolQuarantineMaxRange && nowNs - freedAtNs < patPortQuarantineNs

/-! ## The table -/

/-- `AddressOccupancy`. -/
structure AddressOccupancy where
  words : List Word
  recycle : RecycleRing
  occupied : ℕ
  recycleScanPops : ℕ
  recycleScanWalks : ℕ
  portLow : ℕ
  range : ℕ

namespace AddressOccupancy

/-- `AddressOccupancy::new`. -/
def new (portLow range : ℕ) : AddressOccupancy where
  words := List.replicate ((range + 63) / 64) 0
  recycle := RecycleRing.new range
  occupied := 0
  recycleScanPops := 0
  recycleScanWalks := 0
  portLow := portLow
  range := range

/-- The table of one address as `PortAllocator::new` builds it. -/
def ofPorts (portLow portHigh : UInt16) : AddressOccupancy :=
  new portLow.toNat
    (if portLow = 0 || portHigh = 0 || portHigh < portLow then 0 else portHigh.toNat - portLow.toNat + 1)

section

variable (s : AddressOccupancy)

/-- `offset_of`. -/
def offsetOf (port : ℕ) : Option ℕ :=
  if port < s.portLow then none
  else
    let off := port - s.portLow
    if off < s.range then some off else none

/-- `port_of`. -/
def portOf (offset : ℕ) : Option ℕ :=
  if s.range ≤ offset then none else some ((s.portLow + offset % 2 ^ 16) % 2 ^ 16)

/-- `claim_offset`. -/
def claimOffset (offset : ℕ) : Bool × AddressOccupancy :=
  let won := !test s.words offset
  (won, { s with words := set s.words offset, occupied := if won then s.occupied + 1 else s.occupied })

/-- `free_offset`. -/
def freeOffset (offset : ℕ) : Bool × AddressOccupancy :=
  let freed := test s.words offset
  (freed, { s with words := clear s.words offset, occupied := if freed then s.occupied - 1 else s.occupied })

/-- `is_occupied`. -/
def isOccupied (offset : ℕ) : Bool := test s.words offset

/-- `occupied_count`. -/
def occupiedCount : ℕ := count s.words

/-! ### Claims -/

/-- `is_quarantined` of a claim. -/
def isQuarantined (nowNs offset : ℕ) : Bool :=
  s.recycle.queue.any fun token =>
    s.offsetOf token.1 = some offset && quarantined s.range token.2 nowNs

/-- The probe of the range: the answer it returns with, if it returns, and the table. -/
def probe (excluded held : ℕ → Bool) : AddressOccupancy → List ℕ → Option (Option ℕ) × AddressOccupancy
  | s, [] => (none, s)
  | s, offset :: rest =>
    if excluded offset then probe excluded held s rest
    else if held offset then probe excluded held s rest
    else
      let (won, s) := s.claimOffset offset
      if won then (some (s.portOf offset), s)
      else if s.range ≤ s.occupied then (some none, s)
      else probe excluded held s rest

/-- A walk of the ring: the port it claimed, the table, the tokens it keeps back, and how
many it has popped. -/
structure Walk where
  claimed : Option ℕ
  table : AddressOccupancy
  retained : List (ℕ × ℕ × ℕ)
  pops : ℕ

/-- The recycled phase over the tokens that are left in the queue. -/
def drain (excluded : ℕ → Bool) (nowNs : ℕ) :
    AddressOccupancy → List (ℕ × ℕ) → List (ℕ × ℕ × ℕ) → ℕ → Walk
  | s, [], retained, pops => ⟨none, { s with recycle := { s.recycle with queue := [] } }, retained, pops⟩
  | s, (port, freedAtNs) :: rest, retained, pops =>
    match s.offsetOf port with
    | none => drain excluded nowNs s rest retained (pops + 1)
    | some offset =>
      if excluded offset then drain excluded nowNs s rest (retained ++ [(port, offset, freedAtNs)]) (pops + 1)
      else if quarantined s.range freedAtNs nowNs then
        drain excluded nowNs s rest (retained ++ [(port, offset, freedAtNs)]) (pops + 1)
      else
        let (won, s) := { s with recycle := s.recycle.unmark offset }.claimOffset offset
        if won then ⟨some port, { s with recycle := { s.recycle with queue := rest } }, retained, pops + 1⟩
        else drain excluded nowNs s rest (retained ++ [(port, offset, freedAtNs)]) (pops + 1)

/-- The tokens a walk has kept back, queued again. -/
def requeueAll (r : RecycleRing) (retained : List (ℕ × ℕ × ℕ)) : RecycleRing :=
  retained.foldl (fun r token => r.requeue token.1 token.2.1 token.2.2) r

/-- The recycled phase of a claim. -/
def claimRecycled (excluded : ℕ → Bool) (nowNs : ℕ) : Option ℕ × AddressOccupancy :=
  if s.range ≤ s.occupied then (none, s)
  else
    let walk := drain excluded nowNs { s with recycleScanWalks := s.recycleScanWalks + 1 } s.recycle.queue [] 0
    (walk.claimed, { walk.table with
      recycleScanPops := walk.table.recycleScanPops + walk.pops
      recycle := requeueAll walk.table.recycle walk.retained })

/-- The offsets of a probe, from the keyed one on and round. -/
def probeOffsets (start : ℕ) : List ℕ := (List.range s.range).map fun i => (start + i) % 2 ^ 32 % s.range

/-- `claim_seeded_filtered_at`. -/
def claimSeededFilteredAt (key secret : UInt64) (excluded : ℕ → Bool) (nowNs : ℕ) : Option ℕ × AddressOccupancy :=
  if s.range = 0 then (none, s)
  else if s.range ≤ s.occupied then (none, s)
  else
    let start := patKeyedOffset secret key s.range
    let held := fun offset => s.range ≤ smallPoolQuarantineMaxRange && s.isQuarantined nowNs offset
    match probe excluded held s (s.probeOffsets start) with
    | (some answer, s) => (answer, s)
    | (none, s) => s.claimRecycled excluded nowNs

/-! ### Blocks -/

/-- The bits of a word of the block that are free: those outside the block read as taken. -/
def pendingOf (start stop w : ℕ) : Word :=
  let word := s.words.getD w 0
  let word := if w = start / 64 ∧ start % 64 ≠ 0 then word ||| ((1#64 <<< (start % 64)) - 1) else word
  let word := if w = stop / 64 ∧ stop % 64 ≠ 63 then word ||| ~~~ ((1#64 <<< (stop % 64 + 1)) - 1) else word
  ~~~ word

/-- The pending bits of one word, lowest first; a word has at most 64. -/
def claimPending (w : ℕ) : ℕ → AddressOccupancy → Word → Option (Option ℕ) × AddressOccupancy
  | 0, s, _ => (none, s)
  | left + 1, s, pending =>
    if pending = 0 then (none, s)
    else
      let offset := w * 64 + pending.ctz.toNat
      let (won, s) := s.claimOffset offset
      if won then (some (s.portOf offset), s) else claimPending w left s (pending &&& (pending - 1))

/-- The words of a block. -/
def claimWords (start stop : ℕ) : AddressOccupancy → List ℕ → Option ℕ × AddressOccupancy
  | s, [] => (none, s)
  | s, w :: rest =>
    match claimPending w 64 s (s.pendingOf start stop w) with
    | (some answer, s) => (answer, s)
    | (none, s) => claimWords start stop s rest

/-- `claim_in_block`. -/
def claimInBlock (startPort endPort : ℕ) : Option ℕ × AddressOccupancy :=
  match s.offsetOf startPort, s.offsetOf endPort with
  | some start, some stop =>
    if stop < start then (none, s)
    else claimWords start stop s (List.range' (start / 64) (stop / 64 + 1 - start / 64))
  | _, _ => (none, s)

/-! ### Reservations and frees -/

/-- `reserve`. -/
def reserve (port : ℕ) : Bool × AddressOccupancy :=
  match s.offsetOf port with
  | some offset => s.claimOffset offset
  | none => (false, s)

/-- `free_recycle_at`. -/
def freeRecycleAt (port nowNs : ℕ) : Bool × AddressOccupancy :=
  match s.offsetOf port with
  | none => (false, s)
  | some offset =>
    let (freed, s) := s.freeOffset offset
    if !freed then (false, s)
    else (true, { s with recycle := (s.recycle.pushAt port (some offset) nowNs).2 })

end

end AddressOccupancy

/-! ## Histories -/

/-- The operations on a table. -/
inductive Op where
  | claim (key secret : UInt64) (excluded : ℕ → Bool) (nowNs : ℕ)
  | claimInBlock (startPort endPort : ℕ)
  | reserve (port : ℕ)
  | freeRecycleAt (port nowNs : ℕ)

/-- What a caller learns. -/
inductive Answer where
  | handedOut (port : ℕ)
  | freed (port : ℕ)
  | refused
deriving DecidableEq

/-- A claim answered with a port, or without. -/
def Answer.ofPort : Option ℕ → Answer
  | some port => .handedOut port
  | none => .refused

def step (s : AddressOccupancy) : Op → Answer × AddressOccupancy
  | .claim key secret excluded nowNs =>
    let (port, s) := s.claimSeededFilteredAt key secret excluded nowNs
    (.ofPort port, s)
  | .claimInBlock startPort endPort =>
    let (port, s) := s.claimInBlock startPort endPort
    (.ofPort port, s)
  | .reserve port =>
    let (won, s) := s.reserve port
    (if won then .handedOut port else .refused, s)
  | .freeRecycleAt port nowNs =>
    let (freed, s) := s.freeRecycleAt port nowNs
    (if freed then .freed port else .refused, s)

/-- The table after a history. -/
def after (s : AddressOccupancy) (ops : List Op) : AddressOccupancy := run (fun s op => (step s op).2) s ops

end Xpf.PortOccupancy
